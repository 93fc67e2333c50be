import Catena.Store.CommitReplay

/-!
# Length limits

A device respects its limits if no array has more than `max_length()` elements, no STRING is
longer than `max_length()` and no STRING_ARRAY is longer in total than `total_length()`.
Validation looks at a STRING inside a struct or a variant only for `total_length()`, and at
the total length of an array as it is before the commit. The limits are kept where both checks
would still pass at the moment an entry is committed.
-/

namespace Catena.Store

open Catena.Framework
open ExceptionWithStatus (ok)

/-- An array has no more elements and is no longer in total than its descriptor says. Only
strings count towards the total length. -/
def ArrayFits : NodeProp
  | .vector e, pd, v => List.length v ≤ pd.maxLength ∧ (List.map e.size v).sum ≤ pd.totalLength
  | _, _, _ => True

/-- A STRING is no longer than its descriptor says. The elements of a STRING_ARRAY are not of
type STRING. -/
def StringFits : NodeProp
  | .elem .string, pd, v => pd.type = .string → String.utf8ByteSize v ≤ pd.maxLength
  | _, _, _ => True

def RespectsLimits : NodeProp := fun t pd v => ArrayFits t pd v ∧ StringFits t pd v

theorem size_of_denoteElem {e : ElemTy} {pd : ParamDescriptor} {src : Value} {x : e.Val}
    (h : denoteElem e pd src = some x) : e.size x = src.size := by
  cases e with
  | int32 => cases src <;> first | rfl | cases h
  | float => cases src <;> first | rfl | cases h
  | string =>
    cases src <;> cases h
    rfl
  | struct fields => cases src <;> first | rfl | cases h
  | variant name info ty alternatives => cases src <;> first | rfl | cases h

theorem sizes_of_mapM {e : ElemTy} {pd : ParamDescriptor} {items : List Value} {xs : List e.Val}
    (h : items.mapM (denoteElem e pd) = some xs) :
    xs.length = items.length ∧ xs.map e.size = items.map Value.size := by
  induction items generalizing xs with
  | nil =>
    obtain rfl : [] = xs := Option.some.inj h
    exact ⟨rfl, rfl⟩
  | cons item items ih =>
    rw [List.mapM_cons] at h
    obtain ⟨x, hx, hrest⟩ := Option.bind_eq_some_iff.mp h
    obtain ⟨ys, hys, hcons⟩ := Option.bind_eq_some_iff.mp hrest
    obtain rfl : x :: ys = xs := Option.some.inj hcons
    obtain ⟨hlength, hsizes⟩ := ih hys
    exact ⟨by simp [hlength], by simp [hsizes, size_of_denoteElem hx]⟩

theorem arrayFits_of_valid (authz : Authorizer) (t : Ty) (pd : ParamDescriptor) (src : Value)
    (x : t.Val) (hvalid : (validFromProto authz t pd src).isOk = true)
    (hx : denote t pd src = some x) : ArrayFits t pd x := by
  cases t with
  | empty type subParams => trivial
  | elem e => trivial
  | vector e =>
    obtain ⟨_, items, hitems, hmax, htotal, _⟩ := (validFromProto_vector authz pd src e).mp hvalid
    simp only [denote, hitems] at hx
    obtain ⟨hlength, hsizes⟩ := sizes_of_mapM hx
    refine ⟨hlength.trans_le hmax, ?_⟩
    rw [hsizes]
    exact htotal

theorem sizes_sum_of_ne_string {e : ElemTy} (he : e ≠ .string) (v : List e.Val) :
    (v.map e.size).sum = 0 := by
  have hzero (x : e.Val) : e.size x = 0 := by
    cases e with
    | string => exact absurd rfl he
    | int32 | float | struct fields | variant name info ty alternatives => rfl
  induction v with
  | nil => rfl
  | cons x v ih => simp [hzero, ih]

namespace Device

variable (d : Device)

/-- The entry keeps the limits at the store it is committed to: every STRING it brings is within
its `max_length()`, and an array it appends to or writes an element of stays within its
`total_length()`. -/
structure KeepsLimits (s : d.State) (p : SetValuePayload) : Prop where
  strings : ∀ n r m, d.written p = some n → n.below r = some m →
    StringFits m.ty m.descriptor m.value
  total : ∀ i e pd v, Path.backIndex p.path = some i →
    d.nodeAt s (Path.popBack p.path) = some ⟨.vector e, pd, v⟩ →
      (if i = Path.kEnd then List.map e.size v ++ [p.value.size]
        else (List.map e.size v).set i p.value.size).sum ≤ pd.totalLength

/-- The limits of an array survive a write to one of its elements. -/
theorem arrayFits_of_element {p : SetValuePayload} {s : d.State} {q r : List Segment}
    {segment : Segment} {n : Node} {v : n.ty.Val} (hkeep : d.KeepsLimits s p)
    (htarget : Path.target p.path = q ++ segment :: r) (hn : d.nodeAt s q = some n)
    (hchild : zoomChild segment (Store.zoom (entryAct p.path p.value) r) n.ty n.descriptor
      n.value = some ((), v)) (h : ArrayFits n.ty n.descriptor n.value) :
    ArrayFits n.ty n.descriptor v := by
  obtain ⟨t, pd, w⟩ := n
  cases t with
  | empty type subParams => trivial
  | elem e => trivial
  | vector e =>
    change List e.Val at w
    cases segment with
    | name oid => cases hchild
    | index i =>
      obtain ⟨x, _, hr⟩ := Option.bind_eq_some_iff.mp hchild
      obtain ⟨⟨⟨⟩, y⟩, hact, he⟩ := Option.map_eq_some_iff.mp hr
      obtain ⟨_, rfl⟩ := Prod.mk.inj he
      change e.Val at y
      refine ⟨(by simp : (w.set i y).length = w.length).trans_le h.1, ?_⟩
      by_cases hstring : e = .string
      · -- nothing lies below a string, so the entry sets the element itself
        subst hstring
        cases r with
        | cons segment r => cases hact
        | nil =>
          by_cases happ : Path.IsAppend p.path
          · simp only [Store.zoom, entryAct, happ, if_true] at hact
            cases hact
          · simp only [Store.zoom, entryAct, happ, if_false] at hact
            rw [Path.target_of_not_append happ] at htarget
            obtain ⟨z, hz, hyz⟩ := Option.map_eq_some_iff.mp hact
            obtain ⟨_, rfl⟩ := Prod.mk.inj hyz
            have htotal := hkeep.total i .string pd w (by rw [htarget]; simp)
              (by rw [htarget]; simpa using hn)
            have hend : i ≠ Path.kEnd := fun hi => happ (by simp [Path.IsAppend, htarget, hi])
            rw [if_neg hend, ← size_of_denoteElem hz] at htotal
            exact (congrArg List.sum List.map_set).trans_le htotal
      · exact (sizes_sum_of_ne_string hstring _).trans_le (Nat.zero_le _)

/-- An entry that keeps the limits at the store it is committed to keeps them everywhere. -/
theorem holds_limits_of_apply {authz : Authorizer} {p : SetValuePayload} {s s' : d.State}
    (hvalid : d.ValidEntry authz p.path p.value) (hroom : d.HasRoom s p.path)
    (hkeep : d.KeepsLimits s p) (h : d.apply p.path p.value s = some ((), s'))
    (hs : d.Holds RespectsLimits s) : d.Holds RespectsLimits s' := by
  refine d.nodes_of_apply (fun _ n => RespectsLimits n.ty n.descriptor n.value) h ?_ ?_ ?_ hs
  · intro happ t pd x r m hd hx hm
    have hw := d.written_set happ hd
    rw [hx] at hw
    exact ⟨(every_of_valid authz (arrayFits_of_valid authz) t pd p.value x (hvalid.set happ hd)
      hx).below (fun _ _ _ _ => trivial) hm, hkeep.strings _ r m hw hm⟩
  · intro happ e pd v x hn hx
    change List e.Val at v
    have hd := d.descend_of_nodeAt hn
    have hw := d.written_push happ hd
    rw [hx] at hw
    refine ⟨⟨⟨?_, ?_⟩, trivial⟩, fun r m hm => ⟨?_, hkeep.strings _ r m hw hm⟩⟩
    · obtain ⟨n, len, hn', hlen, hlt⟩ := hroom happ
      obtain rfl := Option.some.inj (hn.symm.trans hn')
      obtain rfl := Option.some.inj hlen
      exact (by simp : (v ++ [x]).length = v.length + 1).trans_le hlt
    · have htotal := hkeep.total Path.kEnd e pd v happ hn
      rw [if_pos rfl, ← size_of_denoteElem hx] at htotal
      exact (congrArg List.sum List.map_append).trans_le htotal
    · have helem : (Ty.elem e).Every ArrayFits pd x :=
        every_of_validElem authz (arrayFits_of_valid authz) e pd p.value x (hvalid.push happ hd) hx
      exact helem.below (fun _ _ _ _ => trivial) hm
  · intro q segment r n v htarget hn hchild hlimits
    have harray := d.arrayFits_of_element (n := n) (v := v) hkeep htarget hn hchild hlimits.1
    refine ⟨harray, ?_⟩
    clear harray
    obtain ⟨t, pd, w⟩ := n
    cases t with
    | empty type subParams => trivial
    | vector e => trivial
    | elem e =>
      cases e with
      | string => cases hchild
      | int32 | float | struct fields | variant name info ty alternatives => trivial

/-- Every entry keeps the limits at the store it is committed to. -/
def CommitKeepsLimits (authz : Authorizer) : List SetValuePayload → d.State → Prop
  | [], _ => True
  | p :: ps, s => d.KeepsLimits s p ∧ ∀ rc s',
      (d.commitTarget s p.path authz).map (fun param => param.fromProto authz p.value) =
        some (rc, s') → CommitKeepsLimits authz ps s'

/-- Every committed entry of a run keeps the limits at the store it is committed to. -/
def RunKeepsLimits : List Call → d.State → Prop
  | [], _ => True
  | c :: cs, s =>
      (∀ ans, d.tryMultiSetValue s c.payloads c.authz = .ok ans → ans.isOk = true →
        d.CommitKeepsLimits c.authz c.payloads s) ∧
      match d.call s c with
      | .nullDereference _ => True
      | .returned _ s' | .threw _ s' => RunKeepsLimits cs s'

theorem holds_limits_of_commitLoop {authz : Authorizer} {src : List SetValuePayload}
    {s₀ s : d.State}
    (hacc : ∀ p ∈ src, Path.parse p.oid = .ok p.path ∧ Accepted d s₀ authz p.path p.value)
    (hkeep : d.CommitKeepsLimits authz src s) (hs : d.Holds RespectsLimits s)
    (ans : ExceptionWithStatus) : d.Holds RespectsLimits (d.commitLoop authz src ans s).store := by
  induction src generalizing s ans with
  | nil => exact hs
  | cons p ps ih =>
    obtain ⟨hparse, hp⟩ := hacc p (by simp)
    simp only [commitLoop, hparse]
    cases ht : d.commitTarget s p.path authz with
    | none => exact hs
    | some param =>
      have hwritten : (d.commitTarget s p.path authz).map (fun param =>
          param.fromProto authz p.value) = some (param.fromProto authz p.value) := by rw [ht]; rfl
      obtain ⟨_, hstep⟩ := (d.commitTarget_fromProto s _ p.path authz p.value _).mp hwritten
      refine ih (fun q hq => hacc q (by simp [hq])) (hkeep.2 _ _ hwritten) ?_ _
      by_cases hnone : Path.backIndex p.path = some Path.kNone
      · rw [d.unchanged_of_noIndex hp hnone hstep]
        exact hs
      · have hvalid := d.validEntry_of_accepted hp hnone
        obtain ⟨_, hroom, happly⟩ := d.apply_of_commitStep hvalid hstep
        exact d.holds_limits_of_apply hvalid hroom hkeep.1 happly hs

theorem holds_limits_of_call {s : d.State} {c : Call}
    (hkeep : ∀ ans, d.tryMultiSetValue s c.payloads c.authz = .ok ans → ans.isOk = true →
      d.CommitKeepsLimits c.authz c.payloads s) (hs : d.Holds RespectsLimits s) :
    d.Holds RespectsLimits (d.call s c).store := by
  rw [call_eq_multiSetValue, multiSetValue]
  split
  · exact hs
  · rename_i ans htry
    split
    · rename_i hok
      exact d.holds_limits_of_commitLoop (d.accepted_of_try htry hok) (hkeep ans htry hok) hs ok
    · exact hs

theorem RunKeepsLimits.of_append {d : Device} {s : d.State} {earlier later : List Call}
    (h : d.RunKeepsLimits (earlier ++ later) s) : d.RunKeepsLimits earlier s := by
  induction earlier generalizing s with
  | nil => trivial
  | cons c cs ih =>
    refine ⟨h.1, ?_⟩
    have hrest := h.2
    cases hcall : d.call s c with
    | nullDereference s' => trivial
    | returned ans s' =>
      rw [hcall] at hrest
      exact ih hrest
    | threw why s' =>
      rw [hcall] at hrest
      exact ih hrest

/-- In every run whose entries keep the limits where they are committed, every state reached
respects them. -/
theorem run_respectsLimits (s : d.State) (calls : List Call) (hs : d.Holds RespectsLimits s)
    (hkeep : d.RunKeepsLimits calls s) :
    ∀ earlier later, calls = earlier ++ later → d.Holds RespectsLimits (d.run s earlier) := by
  rintro earlier later rfl
  have hearlier := hkeep.of_append
  clear hkeep
  induction earlier generalizing s with
  | nil => exact hs
  | cons c cs ih =>
    have hcall := d.holds_limits_of_call hearlier.1 hs
    have hrest := hearlier.2
    rw [run]
    cases hc : d.call s c with
    | nullDereference s' =>
      rw [hc] at hcall
      exact hcall
    | returned ans s' =>
      rw [hc] at hrest hcall
      exact ih s' hcall hrest
    | threw why s' =>
      rw [hc] at hrest hcall
      exact ih s' hcall hrest

end Device

/-- A device with one struct whose only field is a STRING of at most two bytes. -/
def labelDevice : Device where
  defaults := { defaultScope := "st2138:op" }
  params := .cons "label" { oid := "label" }
    (.elem (.struct (.cons "text" { oid := "text", maxLength := 2 } (.elem .string) .nil))) .nil
  wellFormed := ⟨List.not_mem_nil, ⟨List.not_mem_nil, trivial, trivial⟩, trivial⟩

theorem labelDevice_holds : labelDevice.Holds RespectsLimits ((("", ()) : String × Unit), ()) := by
  refine labelDevice.holds_of_every (fun _ _ _ _ => ⟨trivial, trivial⟩) fun oid member hmember => ?_
  simp only [labelDevice, Fields.findParamByName] at hmember
  split at hmember
  · obtain rfl := Option.some.inj hmember
    exact ⟨⟨trivial, trivial⟩, ⟨trivial, fun _ => by decide⟩, trivial⟩
  · cases hmember

theorem run_respectsLimits_label :
    labelDevice.Holds RespectsLimits (labelDevice.run ((("", ()) : String × Unit), ())
      [.setValue "/label/text" (.stringValue "ab") .kAuthzDisabled]) := by
  have hpath : SetValuePayload.path ⟨"/label/text", .stringValue "ab"⟩ =
    [.name "label", .name "text"] := rfl
  refine labelDevice.run_respectsLimits _
    [.setValue "/label/text" (.stringValue "ab") .kAuthzDisabled] labelDevice_holds
    ⟨fun _ _ _ => ⟨?_, ?_⟩, ?_⟩ _ [] (List.append_nil _).symm
  · refine ⟨fun n r m hn hm => ?_, fun i e pd v hi => ?_⟩
    · simp only [Device.written, Device.newValue, hpath] at hn
      obtain rfl := Option.some.inj hn
      cases r with
      | nil =>
        obtain rfl := Option.some.inj hm
        exact fun _ => by decide
      | cons segment r => cases hm
    · change Path.backIndex (SetValuePayload.path ⟨"/label/text", .stringValue "ab"⟩) = some i at hi
      rw [hpath] at hi
      cases hi
  · exact fun _ _ _ => trivial
  · split <;> trivial

/-- A STRING inside a struct is written without a look at its `max_length()`. -/
theorem nested_string_exceeds_limit :
    labelDevice.Holds RespectsLimits ((("", ()) : String × Unit), ()) ∧
      ∃ ans s', labelDevice.call ((("", ()) : String × Unit), ())
        (.setValue "/label" (.structValue [("text", .stringValue "abc")]) .kAuthzDisabled) =
          .returned ans s' ∧ ans.isOk = true ∧ ¬labelDevice.Holds RespectsLimits s' := by
  have hparse : Path.parse "/label" = .ok [.name "label"] := rfl
  refine ⟨labelDevice_holds, ok, ((("abc", ()) : String × Unit), ()), ?_, rfl, fun h => ?_⟩
  · simp only [Device.call, Device.setValue, Device.multiSetValue, Device.tryMultiSetValue,
      Device.tryLoop, Device.commitMultiSetValue, Device.commitLoop, hparse]
    rfl
  · have htext := (h [.name "label", .name "text"] _ rfl).2 rfl
    exact absurd htext (by decide)

end Catena.Store
