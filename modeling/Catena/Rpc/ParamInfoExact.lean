import Catena.Rpc.ParamInfo

/-!
# When parameter info is exact

What the responses carry in the end is the last length that is written under their oid. It is
the own length of every parameter, and no parameter is missing or answered twice, exactly if
arrays below the top level are not empty, texts in arrays are, and what shares its oid with a
later array has its length.
-/

namespace Catena.Rpc

open Store Catena.Framework

def oidOf (x : List Segment × Node) : String := x.2.descriptor.getOid

def lengthOf (x : List Segment × Node) : Nat := x.2.arrayLength

/-- The response of a parameter with what has been written into it. -/
def response (x : (List Segment × Node) × Nat) : ParamInfoResponse :=
  ⟨paramInfo x.1.2.descriptor, x.2⟩

/-- A response after the parameters that come later. -/
def patch (later : List (List Segment × Node)) (r : ParamInfoResponse) : ParamInfoResponse :=
  if lastValue oidOf lengthOf r.info.oid later ≠ 0 then
    { r with arrayLength := lastValue oidOf lengthOf r.info.oid later }
  else r

theorem answered_of_lengthOf {x : List Segment × Node} (h : lengthOf x ≠ 0) :
    answered x = true := by
  have hlength : x.2.arrayLength ≠ 0 := h
  simp [answered, hlength]

theorem patch_new (x : List Segment × Node) (xs : List (List Segment × Node)) :
    patch xs { info := paramInfo x.2.descriptor } =
      response (x, lastValue oidOf lengthOf (oidOf x) xs) := by
  rw [patch]
  split
  · rfl
  · rename_i hlast
    rw [not_not] at hlast
    exact congrArg (ParamInfoResponse.mk _) hlast.symm

theorem updateArrayLengths_patch (x : List Segment × Node) (later : List (List Segment × Node))
    (responses : List ParamInfoResponse) :
    (updateArrayLengths (oidOf x) (lengthOf x) responses).map (patch later) =
      responses.map (patch (x :: later)) := by
  rw [updateArrayLengths]
  split
  · rename_i hpos
    rw [List.map_map]
    apply List.map_congr_left
    intro r hr
    by_cases hlast : lastValue oidOf lengthOf r.info.oid later = 0
    · by_cases hoid : r.info.oid = oidOf x
      · rw [hoid] at hlast
        simp [patch, hoid, hlast, lastValue_cons_of_eq hlast, Nat.ne_of_gt hpos]
      · simp [patch, hoid, hlast, lastValue_cons_of_eq hlast, Ne.symm hoid]
    · by_cases hoid : r.info.oid = oidOf x
      · rw [hoid] at hlast
        simp [patch, hoid, hlast, lastValue_cons_of_ne hlast]
      · simp [patch, hoid, hlast, lastValue_cons_of_ne hlast]
  · rename_i hzero
    apply List.map_congr_left
    intro r hr
    rw [patch, patch, lastValue_cons_of_value_eq (by omega)]

/-- What a run over parameters leaves in the responses. -/
theorem foldl_record (xs : List (List Segment × Node)) (responses : List ParamInfoResponse) :
    xs.foldl record responses =
      responses.map (patch xs) ++
        ((stamp oidOf lengthOf xs).filter fun x => answered x.1).map response := by
  induction xs generalizing responses with
  | nil =>
    have hpatch : patch [] = id := by
      funext r
      simp [patch, lastValue]
    rw [hpatch, List.map_id]
    simp [stamp]
  | cons x xs ih =>
    rw [List.foldl_cons, ih, stamp, record]
    by_cases hanswered : answered x = true
    · rw [if_pos hanswered, List.filter_cons, if_pos hanswered, List.map_cons]
      have hupdate := updateArrayLengths_patch x xs
        (responses ++ [{ info := paramInfo x.2.descriptor }])
      rw [oidOf, lengthOf] at hupdate
      rw [hupdate, List.map_append, List.append_assoc, List.map_singleton, patch_new]
      rfl
    · have hlength : lengthOf x = 0 := by
        by_contra hne
        exact hanswered (answered_of_lengthOf hne)
      rw [if_neg hanswered, List.filter_cons, if_neg hanswered]
      congr 1
      apply List.map_congr_left
      intro r hr
      rw [patch, patch, lastValue_cons_of_value_eq hlength]

theorem foldl_record_nil (xs : List (List Segment × Node)) :
    xs.foldl record [] = ((stamp oidOf lengthOf xs).filter fun x => answered x.1).map response := by
  rw [foldl_record, List.map_nil, List.nil_append]

section

variable {d : Device} {s : d.State} {authz : Authorizer}

/-! ## Enough -/

theorem lengthOf_eq_ownLength {x : List Segment × Node}
    (h : x.2.isArrayType = true → x.2.size < 2 ^ 32) : lengthOf x = ownLength x.2 := by
  rw [lengthOf, Node.arrayLength, ownLength]
  split
  · rename_i harray
    exact Nat.mod_eq_of_lt (h harray)
  · rfl

theorem mem_paramNodes_iff {q : List Segment} {n : Node} :
    (q, n) ∈ paramNodes d s authz ↔
      (q, n) ∈ d.paramTree s authz ∧ Path.backIndex q = none := by
  rw [paramNodes, List.mem_filter, Option.isNone_iff_eq_none]

theorem mem_tree_iff (haddr : d.Addressed s authz)
    (hsizes : ∀ q n, d.readNode s authz q = some n → Path.backIndex q = none →
      n.isArrayType = true → n.size < 2 ^ 32) {q : List Segment} {n : Node} :
    (q, n) ∈ d.paramTree s authz ↔ d.readNode s authz q = some n := by
  rw [Device.mem_paramTree_iff haddr]
  exact and_iff_left_of_imp fun h => Device.counted_of_sizes haddr hsizes h

theorem stamp_answered (xs : List (List Segment × Node)) :
    xs.foldl record [] = (stamp oidOf lengthOf (xs.filter answered)).map response := by
  rw [foldl_record_nil, stamp_filter fun x hx => answered_of_lengthOf]

theorem nodup_paramNodes : ((paramNodes d s authz).map Prod.fst).Nodup := by
  rw [paramNodes]
  exact d.nodup_paramTree.sublist (List.filter_sublist.map Prod.fst)

/-- An array element is answered exactly if it is a text that is not empty. -/
theorem answered_element (haddr : d.Addressed s authz) {init : List Segment} {i : Nat} {n : Node}
    (h : d.readNode s authz (init ++ [.index i]) = some n) :
    answered (init ++ [.index i], n) = true ↔ n.size % 2 ^ 32 ≠ 0 := by
  obtain ⟨-, -, -, -, -, -, harray, -⟩ := Device.element_of_readNode haddr h
  have hne : init ≠ [] := by
    rintro rfl
    cases h
  rw [answered, harray, Node.arrayLength, harray]
  simp [hne]

theorem exactlyOnce_of_unambiguous (haddr : d.Addressed s authz) (h : Unambiguous d s authz) :
    ExactlyOnce d s authz ((d.paramTree s authz).foldl record []) := by
  have hsizes : ∀ q n, d.readNode s authz q = some n → Path.backIndex q = none →
      n.isArrayType = true → n.size < 2 ^ 32 :=
    fun q n hread hback harray => (h.arrays q n hread hback harray).1
  have hanswered : (d.paramTree s authz).filter answered = paramNodes d s authz := by
    rw [paramNodes]
    apply List.filter_congr
    rintro ⟨q, n⟩ hx
    have hread := (mem_tree_iff haddr hsizes).mp hx
    cases hback : Path.backIndex q with
    | none =>
      by_cases harray : n.isArrayType = true
      · obtain ⟨hlt, htop⟩ := h.arrays q n hread hback harray
        by_cases hzero : n.size = 0
        · simp [answered, htop hzero]
        · have hlength : n.arrayLength = n.size := by
            rw [Node.arrayLength, if_pos harray, Nat.mod_eq_of_lt hlt]
          simp [answered, hlength, hzero]
      · simp [answered, harray]
    | some i =>
      obtain ⟨init, rfl⟩ := Device.exists_of_backIndex hback
      have hsize := h.elements init i n hread
      have hnot := mt (answered_element haddr hread).mp (not_not.mpr hsize)
      simpa using hnot
  have hlengths : ∀ x ∈ paramNodes d s authz, lengthOf x = ownLength x.2 := by
    rintro ⟨q, n⟩ hx
    obtain ⟨htree, hback⟩ := mem_paramNodes_iff.mp hx
    apply lengthOf_eq_ownLength
    exact hsizes q n ((mem_tree_iff haddr hsizes).mp htree) hback
  have hown : ∀ x ∈ stamp oidOf lengthOf (paramNodes d s authz), x.2 = lengthOf x.1 := by
    rw [stamp_own_iff]
    apply h.names.imp_of_mem
    intro a b ha hb hab
    rw [hlengths a ha, hlengths b hb]
    exact hab
  refine ⟨paramNodes d s authz, nodup_paramNodes, ?_, ?_⟩
  · intro q n
    rw [mem_paramNodes_iff, mem_tree_iff haddr hsizes]
  · rw [stamp_answered, hanswered]
    have hfst : (stamp oidOf lengthOf (paramNodes d s authz)).map Prod.fst =
        paramNodes d s authz := map_fst_stamp _
    rw [← congrArg (List.map fun x : List Segment × Node =>
      ParamInfoResponse.mk (paramInfo x.2.descriptor) (ownLength x.2)) hfst, List.map_map]
    apply List.Perm.of_eq
    apply List.map_congr_left
    intro x hx
    have hmem := mem_of_mem_stamp hx
    rw [response, Function.comp_apply, hown x hx, hlengths x.1 hmem]

/-! ## Necessary -/

theorem size_lt_of_exactlyOnce
    (h : ExactlyOnce d s authz ((d.paramTree s authz).foldl record [])) {q : List Segment}
    {n : Node} (hread : d.readNode s authz q = some n) (hback : Path.backIndex q = none)
    (harray : n.isArrayType = true) : n.size < 2 ^ 32 := by
  obtain ⟨nodes, -, hnodes, hperm⟩ := h
  rw [stamp_answered] at hperm
  have hmem := hperm.mem_iff.mpr (List.mem_map_of_mem
    (f := fun x : List Segment × Node =>
      ParamInfoResponse.mk (paramInfo x.2.descriptor) (ownLength x.2))
    ((hnodes q n).mpr ⟨hread, hback⟩))
  obtain ⟨x, hx, heq⟩ := List.mem_map.mp hmem
  have hown : x.2 = n.size := by
    have hlength := (ParamInfoResponse.mk.inj heq).2
    rwa [ownLength, if_pos harray] at hlength
  -- what is written is a 32-bit length
  rw [← hown]
  rcases stamp_eq hx with hzero | hlast
  · rw [hzero]
    decide
  · by_cases hne : lastValue oidOf lengthOf (oidOf x.1) ((d.paramTree s authz).filter answered) = 0
    · rw [hlast, hne]
      decide
    · obtain ⟨y, -, -, hy⟩ := exists_of_lastValue_ne hne
      rw [hlast, ← hy, lengthOf]
      apply Nat.lt_of_le_of_lt (Node.arrayLength_le y.2)
      exact Nat.mod_lt _ (by decide)

/-- The parameters in an exact reply are those of the tree. -/
theorem perm_of_exactlyOnce (haddr : d.Addressed s authz)
    (h : ExactlyOnce d s authz ((d.paramTree s authz).foldl record [])) :
    (((stamp oidOf lengthOf (d.paramTree s authz)).filter fun x => answered x.1).map
        response).Perm
      (((stamp oidOf lengthOf (d.paramTree s authz)).filter fun x =>
        (Path.backIndex x.1.1).isNone).map fun x => response (x.1, lengthOf x.1)) := by
  have hsizes : ∀ q n, d.readNode s authz q = some n → Path.backIndex q = none →
      n.isArrayType = true → n.size < 2 ^ 32 :=
    fun q n hread hback harray => size_lt_of_exactlyOnce h hread hback harray
  obtain ⟨nodes, hnodup, hnodes, hperm⟩ := h
  rw [foldl_record_nil] at hperm
  have hsame : nodes.Perm (paramNodes d s authz) := by
    rw [List.perm_ext_iff_of_nodup (List.Nodup.of_map _ hnodup)
      (List.Nodup.of_map _ nodup_paramNodes)]
    rintro ⟨q, n⟩
    rw [hnodes, mem_paramNodes_iff, mem_tree_iff haddr hsizes]
  refine hperm.trans ((hsame.map _).trans (List.Perm.of_eq ?_))
  have hfst : (paramNodes d s authz) = ((stamp oidOf lengthOf (d.paramTree s authz)).filter
      fun x => (Path.backIndex x.1.1).isNone).map Prod.fst := by
    have hmap : (stamp oidOf lengthOf (d.paramTree s authz)).map Prod.fst =
        d.paramTree s authz := map_fst_stamp _
    rw [paramNodes, ← congrArg (List.filter fun x : List Segment × Node =>
      (Path.backIndex x.1).isNone) hmap, List.filter_map]
    rfl
  rw [hfst, List.map_map]
  apply List.map_congr_left
  intro x hx
  obtain ⟨hx, hback⟩ := List.mem_filter.mp hx
  have hread := (mem_tree_iff haddr hsizes).mp (mem_of_mem_stamp hx)
  rw [Function.comp_apply, response, lengthOf_eq_ownLength
    (hsizes x.1.1 x.1.2 hread (Option.isNone_iff_eq_none.mp hback))]

/-- In an exact reply just the parameters that are no array elements are answered: an array that
is answered with 0 stands at the top level, so that none below is empty. -/
theorem answered_iff_of_exactlyOnce (haddr : d.Addressed s authz)
    (h : ExactlyOnce d s authz ((d.paramTree s authz).foldl record [])) :
    ∀ x ∈ stamp oidOf lengthOf (d.paramTree s authz),
      answered x.1 = true ↔ (Path.backIndex x.1.1).isNone = true := by
  have hread : ∀ x ∈ stamp oidOf lengthOf (d.paramTree s authz),
      d.readNode s authz x.1.1 = some x.1.2 :=
    fun x hx => ((Device.mem_paramTree_iff haddr).mp (mem_of_mem_stamp hx)).1
  have hperm := perm_of_exactlyOnce haddr h
  have hzeros := hperm.countP_eq fun r => r.info.type.isArray && r.arrayLength = 0
  rw [List.countP_map, List.countP_map, List.countP_filter, List.countP_filter] at hzeros
  have htop : ∀ x ∈ stamp oidOf lengthOf (d.paramTree s authz), answered x.1 = true →
      x.1.2.isArrayType = true → lengthOf x.1 = 0 → (Path.backIndex x.1.1).isNone = true := by
    rintro ⟨⟨q, n⟩, f⟩ hx hanswered harray hlength
    have hzero : n.arrayLength = 0 := hlength
    simp only [answered, harray, hzero] at hanswered
    obtain ⟨name, rest, rfl, -⟩ := Device.exists_name_of_readNode (hread _ hx)
    obtain rfl : rest = [] := by simpa using hanswered
    rfl
  have hempty := of_countP_le (fun x hx hp => ?_) (Nat.le_of_eq hzeros.symm)
  · have hsub : ∀ x ∈ stamp oidOf lengthOf (d.paramTree s authz),
        (Path.backIndex x.1.1).isNone = true → answered x.1 = true := by
      intro x hx hback
      by_cases hlength : lengthOf x.1 = 0
      · by_cases harray : x.1.2.isArrayType = true
        · have hboth := hempty x hx (by simp [response, paramInfo, hlength, hback]; exact harray)
          simp only [Bool.and_eq_true] at hboth
          exact hboth.2
        · simp [answered, harray]
      · exact answered_of_lengthOf hlength
    have hcount := hperm.length_eq
    rw [List.length_map, List.length_map, ← List.countP_eq_length_filter,
      ← List.countP_eq_length_filter] at hcount
    intro x hx
    exact ⟨of_countP_le hsub (Nat.le_of_eq hcount) x hx, hsub x hx⟩
  · simp only [Function.comp_apply, response, Bool.and_eq_true, decide_eq_true_eq] at hp ⊢
    have hlength : lengthOf x.1 = 0 := by
      by_contra hne
      exact stamp_ne_zero hx hne (of_decide_eq_true hp.1.2)
    exact ⟨⟨hp.1.1, hlength⟩, htop x hx hp.2 hp.1.1 hlength⟩

theorem unambiguous_of_exactlyOnce (haddr : d.Addressed s authz)
    (h : ExactlyOnce d s authz ((d.paramTree s authz).foldl record [])) :
    Unambiguous d s authz := by
  have hsizes : ∀ q n, d.readNode s authz q = some n → Path.backIndex q = none →
      n.isArrayType = true → n.size < 2 ^ 32 :=
    fun q n hread hback harray => size_lt_of_exactlyOnce h hread hback harray
  have hiff := answered_iff_of_exactlyOnce haddr h
  have hstamped : ∀ q n, d.readNode s authz q = some n →
      ∃ x ∈ stamp oidOf lengthOf (d.paramTree s authz), x.1 = (q, n) := by
    intro q n hread
    have hmem := (mem_tree_iff haddr hsizes).mpr hread
    have hfst : (stamp oidOf lengthOf (d.paramTree s authz)).map Prod.fst =
        d.paramTree s authz := map_fst_stamp _
    rw [← hfst] at hmem
    obtain ⟨x, hx, heq⟩ := List.mem_map.mp hmem
    exact ⟨x, hx, heq⟩
  refine ⟨?_, ?_, ?_⟩
  · intro q n hread hback harray
    refine ⟨hsizes q n hread hback harray, ?_⟩
    intro hzero
    obtain ⟨x, hx, hxq⟩ := hstamped q n hread
    have hanswered := (hiff x hx).mpr (by rw [hxq, hback]; rfl)
    simpa [hxq, answered, harray, Node.arrayLength, hzero] using hanswered
  · intro init i n hread
    obtain ⟨x, hx, hxq⟩ := hstamped _ n hread
    have hnot : ¬answered x.1 = true := by
      rw [hiff x hx, hxq]
      simp [Path.backIndex]
    rw [hxq, answered_element haddr hread, not_not] at hnot
    exact hnot
  · have hnodes : (d.paramTree s authz).filter answered = paramNodes d s authz := by
      rw [paramNodes]
      apply List.filter_congr
      rintro ⟨q, n⟩ hx
      obtain ⟨x, hx', hxq⟩ := hstamped q n ((mem_tree_iff haddr hsizes).mp hx)
      have hboth := hiff x hx'
      rw [hxq] at hboth
      exact Bool.eq_iff_iff.mpr hboth
    have hlengths : ∀ x ∈ paramNodes d s authz, lengthOf x = ownLength x.2 := by
      rintro ⟨q, n⟩ hx
      obtain ⟨htree, hback⟩ := mem_paramNodes_iff.mp hx
      exact lengthOf_eq_ownLength (hsizes q n ((mem_tree_iff haddr hsizes).mp htree) hback)
    have hfst : (stamp oidOf lengthOf (paramNodes d s authz)).map Prod.fst =
        paramNodes d s authz := map_fst_stamp _
    have hfilter : ((stamp oidOf lengthOf (d.paramTree s authz)).filter fun x => answered x.1) =
        stamp oidOf lengthOf (paramNodes d s authz) := by
      rw [← hnodes, stamp_filter fun x hx => answered_of_lengthOf]
    have hperm := (perm_of_exactlyOnce haddr h).map fun r => (r.info, r.arrayLength)
    rw [← List.filter_congr fun x hx => Bool.eq_iff_iff.mpr (hiff x hx), hfilter, List.map_map,
      List.map_map] at hperm
    have hown : ∀ x ∈ stamp oidOf lengthOf (paramNodes d s authz), x.2 = lengthOf x.1 := by
      apply @own_of_perm _ _ _ oidOf lengthOf _
        (fun x : List Segment × Node => paramInfo x.2.descriptor) ParamInfo.oid _ (fun x => rfl)
      rw [← congrArg (List.map fun x : List Segment × Node =>
        (paramInfo x.2.descriptor, lengthOf x)) hfst, List.map_map]
      exact hperm
    apply (stamp_own_iff.mp hown).imp_of_mem
    intro a b ha hb hab
    rw [← hlengths a ha, ← hlengths b hb]
    exact hab

/-! ## Both services -/

theorem exactlyOnce_iff (haddr : d.Addressed s authz) :
    ExactlyOnce d s authz ((d.paramTree s authz).foldl record []) ↔ Unambiguous d s authz :=
  ⟨unambiguous_of_exactlyOnce haddr, exactlyOnce_of_unambiguous haddr⟩

theorem restParamInfo_eq (haddr : d.Addressed s authz) {dms : SlotMap} {slot : UInt32}
    (hslot : slot ≤ 65535) (hdm : dms slot = some ⟨d, s⟩) :
    ∃ rc, restParamInfo dms authz slot "" true true =
      some ⟨rc, (d.paramTree s authz).foldl record []⟩ := by
  obtain ⟨rc, hcollect, hempty⟩ := @collectInfo_eq d s authz haddr
  rw [restParamInfo, if_neg (UInt32.not_lt.mpr hslot), hdm]
  refine ⟨rc, ?_⟩
  simp only [hcollect, Bool.not_true, Bool.false_and, Bool.false_eq_true, if_false, if_true]
  cases hrc : rc.isOk with
  | true => rfl
  | false =>
    rw [hempty hrc]
    rfl

theorem grpcParamInfo_eq (haddr : d.Addressed s authz) {dms : SlotMap} {slot : UInt32}
    (hslot : slot ≤ 65535) (hdm : dms slot = some ⟨d, s⟩) :
    ∃ rc, grpcParamInfo dms authz slot "" true =
      some ⟨rc, (d.paramTree s authz).foldl record []⟩ := by
  obtain ⟨rc, hcollect, hempty⟩ := @collectInfo_eq d s authz haddr
  rw [grpcParamInfo, if_neg (UInt32.not_lt.mpr hslot), hdm]
  refine ⟨rc, ?_⟩
  simp only [hcollect]
  cases hrc : rc.isOk with
  | true => rfl
  | false =>
    rw [hempty hrc]
    rfl

end

def boxDevice : Device where
  defaults := { defaultScope := "st2138:op" }
  params := .cons "box" { oid := "box" }
    (.elem (.struct (.cons "levels" { oid := "levels" } (.vector .int32) .nil))) .nil
  wellFormed := ⟨List.not_mem_nil, ⟨List.not_mem_nil, trivial, trivial⟩, trivial⟩

def box (levels : List Int32) : boxDevice.State :=
  (((levels, ()), ()) : (List Int32 × Unit) × Unit)

theorem boxDevice_addressed (levels : List Int32) :
    boxDevice.Addressed (box levels) .kAuthzDisabled :=
  Device.addressed_of_named ⟨by decide, rfl, ⟨by decide, rfl, trivial, trivial⟩, trivial⟩

end Catena.Rpc
