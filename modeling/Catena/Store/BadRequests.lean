import Catena.Store.OrderIndependence
import Catena.Store.Validation

/-!
# Requests with a bad oid

A bad request is meant to be answered with a status. The validation loop catches the exception
of an oid that is not a path, but it has recorded the oid before, and the loop that resets the
trackers parses the recorded oids again outside every handler. A single entry with a bad oid
therefore always throws.
-/

namespace Catena.Store

open ExceptionWithStatus (ok)

namespace Device

variable {d : Device} {s : d.State} {authz : Authorizer}

theorem tryMultiSetValue_ok_iff {src : List SetValuePayload} :
    (∃ ans, d.tryMultiSetValue s src authz = .ok ans) ↔
      (1 < src.length ∧ d.multiSetEnabled = false) ∨ ¬d.ReachesUnparsed s authz [] src := by
  rw [tryMultiSetValue_eq, ← finish_tryLoop_error_iff (show ok.isOk = true from rfl) List.Pairwise.nil (by simp)]
  by_cases hdisabled : 1 < src.length ∧ d.multiSetEnabled = false
  · simp [hdisabled]
  · have hnot : ¬(1 < src.length ∧ (!d.multiSetEnabled) = true) := by
      simpa using hdisabled
    rw [if_neg hnot]
    simp only [hdisabled, false_or]
    cases finish (d.tryLoop s authz src ok []) with
    | error why => simp
    | ok ans => simp

theorem reachesUnparsed_singleton {payload : SetValuePayload} :
    d.ReachesUnparsed s authz [] [payload] ↔ ¬payload.Parses := by
  rw [reachesUnparsed_cons List.Pairwise.nil]
  constructor
  · rintro ⟨-, h | ⟨-, before, p, after, h, -⟩⟩
    · exact h
    · simp at h
  · intro h
    exact ⟨by simp, Or.inl h⟩

theorem tryMultiSetValue_singleton_ok_iff {payload : SetValuePayload} :
    (∃ ans, d.tryMultiSetValue s [payload] authz = .ok ans) ↔ payload.Parses := by
  rw [tryMultiSetValue_ok_iff, reachesUnparsed_singleton]
  simp

/-! ## The commit of a valid entry -/

theorem commitTarget_of_node {path : List Segment} {n : Node} (happ : ¬Path.IsAppend path)
    (hread : d.ReadableAlong authz path) (hnode : d.nodeAt s path = some n) :
    ∃ p, d.commitTarget s path authz = some p := by
  obtain ⟨p, hp, -⟩ := Option.map_eq_some_iff.mp hnode
  exact ⟨p, (d.commitTarget_of_not_append s path authz happ p).mpr ⟨hread, hp⟩⟩

theorem commitTarget_of_element {path : List Segment} {i : Nat} {e : ElemTy}
    {pd : ParamDescriptor} {v : List e.Val} (hindex : Path.backIndex path = some i)
    (hend : i ≠ Path.kEnd) (hread : d.ReadableAlong authz (Path.popBack path))
    (hnode : d.nodeAt s (Path.popBack path) = some ⟨.vector e, pd, v⟩) (hi : i < v.length) :
    ∃ p, d.commitTarget s path authz = some p := by
  have hne := d.ne_nil_of_nodeAt hnode
  have hauthz : authz.readAuthz pd = true := d.readAuthz_of_readableAlong hne hread hnode
  rw [Path.eq_popBack_append hindex]
  apply commitTarget_of_node (n := ⟨.elem e, pd, v[i]⟩)
  · rw [Path.IsAppend, Path.backIndex_append_index]
    exact fun h => hend (Option.some.inj h)
  · rw [d.readableAlong_append authz _ _ hne]
    refine ⟨hread, fun c hc => ?_⟩
    obtain rfl := Option.some.inj ((d.descend_of_nodeAt hnode).symm.trans hc)
    refine ⟨hauthz, fun c' hc' => ?_⟩
    obtain rfl := Option.some.inj hc'
    exact hauthz
  · rw [d.nodeAt_append s _ _ hne, hnode, Option.bind_some, Node.below_vector_index,
      List.getElem?_eq_getElem hi]
    rfl

theorem commitTarget_of_append {path : List Segment} {e : ElemTy} {pd : ParamDescriptor}
    {v : List e.Val} (hindex : Path.backIndex path = some Path.kEnd)
    (hread : d.ReadableAlong authz (Path.popBack path))
    (hnode : d.nodeAt s (Path.popBack path) = some ⟨.vector e, pd, v⟩)
    (hwrite : authz.writeAuthz pd = true) (hroom : v.length < pd.maxLength) :
    ∃ p, d.commitTarget s path authz = some p := by
  obtain ⟨⟨ty, pd', value, assign, m, t⟩, hfocus, hparent⟩ := Option.map_eq_some_iff.mp hnode
  cases hparent
  have hget := (d.getParam_ok_iff s (Path.popBack path) authz _).mpr ⟨hread, hfocus⟩
  simp only [commitTarget, hindex, if_true, hget, Param.addBack, hwrite, Bool.not_true,
    Bool.false_eq_true, if_false]
  rw [if_neg (Nat.not_le.mpr hroom)]
  exact ⟨_, rfl⟩

theorem accepted_of_valid {payload : SetValuePayload} (h : d.Valid s authz payload) :
    Path.parse payload.oid = .ok payload.path ∧
      Accepted d s authz payload.path payload.value := by
  obtain ⟨path, hparse⟩ := parses_of_valid h
  obtain ⟨ans, hentry, hans⟩ := h
  have hpath : payload.path = path := by simp [SetValuePayload.path, hparse]
  rw [hpath]
  refine ⟨hparse, ?_⟩
  simp only [tryEntry, hparse] at hentry
  split at hentry
  · rename_i status hget
    obtain rfl := Except.ok.inj hentry
    rw [d.getParam_error hget] at hans
    cases hans
  · rename_i param hget
    obtain rfl := Except.ok.inj hentry
    exact d.accepted_of_validateSetValue hget hans

/-- A valid entry can be committed, unless its index is the one that stands for no index and
its own node does not exist. -/
theorem commitTarget_of_valid {payload : SetValuePayload} (h : d.Valid s authz payload) :
    (∃ p, d.commitTarget s payload.path authz = some p) ↔
      (Path.backIndex payload.path = some Path.kNone →
        ∃ p, d.getParam s payload.path authz = .ok p) := by
  obtain ⟨-, hacc⟩ := accepted_of_valid h
  by_cases hnone : Path.backIndex payload.path = some Path.kNone
  · simp only [hnone, forall_const]
    have happ : ¬Path.IsAppend payload.path := by
      rw [Path.IsAppend, hnone]
      exact fun h => Path.kEnd_ne_kNone (Option.some.inj h).symm
    apply exists_congr
    intro p
    rw [d.commitTarget_of_not_append s payload.path authz happ p, getParam_ok_iff]
  · simp only [hnone, false_implies, iff_true]
    cases hacc with
    | whole n hindex hread hnode =>
      have happ : ¬Path.IsAppend payload.path := by simp [Path.IsAppend, hindex]
      exact commitTarget_of_node happ hread hnode
    | element i e pd v hindex hend hne hread hnode hi =>
      exact commitTarget_of_element hindex hend hread hnode hi
    | append e pd v hindex hread hnode hvalid hmax =>
      exact commitTarget_of_append hindex hread hnode (writeAuthz_of_validElem authz pd _ hvalid)
        hmax
    | noIndex n hindex => exact absurd hindex hnone

/-! ## A single request -/

theorem setValue_of_invalid {payload : SetValuePayload} (hparse : payload.Parses)
    (h : ¬d.Valid s authz payload) :
    ∃ ans, d.setValue s payload.oid payload.value authz = .returned ans s := by
  obtain ⟨ans, hans⟩ := (@tryMultiSetValue_singleton_ok_iff d s authz payload).mpr hparse
  have hnot : ans.isOk = false := by
    rw [tryMultiSetValue_eq, if_neg (by simp)] at hans
    obtain ⟨ans', hentry⟩ : ∃ ans', d.tryEntry s authz payload = .ok ans' := by
      obtain ⟨path, hpath⟩ := hparse
      simp only [tryEntry, hpath]
      split
      · exact ⟨_, rfl⟩
      · exact ⟨_, rfl⟩
    have hans' : ans'.isOk = false := by
      apply Bool.eq_false_iff.mpr
      intro hok
      exact h ⟨ans', hentry, hok⟩
    rw [tryLoop_invalid rfl (by simp) hentry hans', finish] at hans
    split at hans
    · cases hans
    · exact Except.ok.inj hans ▸ hans'
  refine ⟨ans, ?_⟩
  rw [setValue, multiSetValue, hans]
  simp only [hnot, Bool.false_eq_true, if_false]

theorem setValue_of_valid {payload : SetValuePayload} (h : d.Valid s authz payload) :
    (∃ ans s', d.setValue s payload.oid payload.value authz = .returned ans s') ↔
      ∃ p, d.commitTarget s payload.path authz = some p := by
  obtain ⟨hparse, -⟩ := accepted_of_valid h
  obtain ⟨ans, hentry, hans⟩ := h
  have htry : d.tryMultiSetValue s [payload] authz = .ok ans := by
    rw [tryMultiSetValue_eq, if_neg (by simp), tryLoop_valid rfl (by simp) hentry hans, tryLoop,
      finish, List.nil_append, resetLoop, hparse, resetLoop]
  rw [setValue, multiSetValue, htry]
  simp only [hans, if_true, commitMultiSetValue, commitLoop, hparse]
  cases d.commitTarget s payload.path authz with
  | none => simp
  | some p => simp

theorem setValue_of_unparsed {payload : SetValuePayload} (h : ¬payload.Parses) :
    ∃ why, d.setValue s payload.oid payload.value authz = .threw why s := by
  have hnot := mt (@tryMultiSetValue_singleton_ok_iff d s authz payload).mp h
  rw [setValue, multiSetValue]
  cases htry : d.tryMultiSetValue s [payload] authz with
  | error why => exact ⟨why, rfl⟩
  | ok ans => exact absurd ⟨ans, htry⟩ hnot

theorem setValue_returned_iff {payload : SetValuePayload} :
    (∃ ans s', d.setValue s payload.oid payload.value authz = .returned ans s') ↔
      payload.Parses ∧ (d.Valid s authz payload →
        Path.backIndex payload.path = some Path.kNone →
          ∃ p, d.getParam s payload.path authz = .ok p) := by
  by_cases hparse : payload.Parses
  · simp only [hparse, true_and]
    by_cases hvalid : d.Valid s authz payload
    · simp only [hvalid, forall_const]
      rw [setValue_of_valid hvalid, commitTarget_of_valid hvalid]
    · simp only [hvalid, false_implies, iff_true]
      obtain ⟨ans, hans⟩ := setValue_of_invalid hparse hvalid
      exact ⟨ans, s, hans⟩
  · simp only [hparse, false_and, iff_false]
    obtain ⟨why, hwhy⟩ := @setValue_of_unparsed d s authz payload hparse
    rintro ⟨ans, s', hans⟩
    rw [hwhy] at hans
    cases hans

/-- The calls return exactly in these cases: a multi-set that is refused as such or reaches no
oid that is not a path; a single request whose oid is a path, unless it ends in the index that
stands for no index, is valid for the node above it, and its own node does not exist. A single
entry whose oid is not a path is never reported. -/
theorem badRequests_reported_iff (d : Device) (s : d.State) (authz : Authorizer) :
    (∀ src, (∃ ans, d.tryMultiSetValue s src authz = .ok ans) ↔
      (1 < src.length ∧ d.multiSetEnabled = false) ∨
        ∀ before p after, src = before ++ p :: after → ¬p.Parses →
          (∃ q ∈ before, ¬d.Valid s authz q) ∨
            ¬NoOverlap ((before ++ [p]).map (·.oid))) ∧
    (∀ jptr src, (∃ ans s', d.setValue s jptr src authz = .returned ans s') ↔
      ∃ path, Path.parse jptr = .ok path ∧
        (d.Valid s authz ⟨jptr, src⟩ → Path.backIndex path = some Path.kNone →
          ∃ p, d.getParam s path authz = .ok p)) ∧
    (∀ jptr src, (∀ path, Path.parse jptr ≠ .ok path) →
      ¬∃ ans, d.tryMultiSetValue s [⟨jptr, src⟩] authz = .ok ans ∧
        ans.status = .invalidArgument) := by
  refine ⟨?_, ?_, ?_⟩
  · intro src
    rw [tryMultiSetValue_ok_iff]
    apply or_congr Iff.rfl
    simp only [ReachesUnparsed, not_exists, not_and, List.nil_append]
    apply forall_congr'
    intro before
    apply forall_congr'
    intro p
    apply forall_congr'
    intro after
    apply imp_congr_right
    intro _
    apply imp_congr_right
    intro _
    by_cases hvalid : ∀ q ∈ before, d.Valid s authz q
    · have hnone : ¬∃ q ∈ before, ¬d.Valid s authz q := by
        rintro ⟨q, hq, hnot⟩
        exact hnot (hvalid q hq)
      simp only [hnone, false_or]
      exact forall_prop_of_true hvalid
    · simp only [hvalid, false_implies, true_iff]
      apply Or.inl
      simpa using hvalid
  · intro jptr src
    have h := @setValue_returned_iff d s authz ⟨jptr, src⟩
    rw [h]
    constructor
    · rintro ⟨⟨path, hpath⟩, hnode⟩
      refine ⟨path, hpath, ?_⟩
      simpa [SetValuePayload.path, hpath] using hnode
    · rintro ⟨path, hpath, hnode⟩
      refine ⟨⟨path, hpath⟩, ?_⟩
      simpa [SetValuePayload.path, hpath] using hnode
  · intro jptr src hparse h
    obtain ⟨ans, hans, -⟩ := h
    obtain ⟨path, hpath⟩ :=
      (@tryMultiSetValue_singleton_ok_iff d s authz ⟨jptr, src⟩).mp ⟨ans, hans⟩
    exact hparse path hpath

end Device

/-- An oid without a solidus makes both calls throw. -/
theorem bad_throws :
    levelDevice.tryMultiSetValue (([7] : List Int32), ()) [⟨"bad", .int32Value 1⟩]
        .kAuthzDisabled =
      .error (.withStatus ⟨"'bad' is not a valid path", .invalidArgument⟩) ∧
    levelDevice.setValue (([7] : List Int32), ()) "bad" (.int32Value 1) .kAuthzDisabled =
      .threw (.withStatus ⟨"'bad' is not a valid path", .invalidArgument⟩)
        (([7] : List Int32), ()) := by
  have hparse : Path.parse "bad" =
      .error (.withStatus ⟨"'bad' is not a valid path", .invalidArgument⟩) := rfl
  have htry : levelDevice.tryMultiSetValue (([7] : List Int32), ()) [⟨"bad", .int32Value 1⟩]
        .kAuthzDisabled =
      .error (.withStatus ⟨"'bad' is not a valid path", .invalidArgument⟩) := by
    simp only [Device.tryMultiSetValue, Device.tryLoop, hparse, List.find?_nil, List.nil_append]
    rfl
  refine ⟨htry, ?_⟩
  simp only [Device.setValue, Device.multiSetValue, htry]

end Catena.Store
