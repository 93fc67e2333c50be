import Catena.Store.Invariant

/-!
# Constraints

Choices are enforced by rejecting a write and ranges by rewriting what is written. Whatever
route a value takes into the store, it arrives as the denotation of a valid source, so both
hold of every value that a run of calls leaves behind.
-/

namespace Catena.Store

/-- An integer range from `min` to `max` whose width fits in an `int32_t`. -/
def ParamDescriptor.SaneRange (pd : ParamDescriptor) : Prop :=
  ∀ min max step, pd.getConstraint = some (.intRange min max step) →
    min ≤ max ∧ max.toInt - min.toInt ≤ 2 ^ 31 - 1

/-- A string or an integer satisfies the choice its descriptor carries, and an integer lies in
the range its descriptor carries. -/
def RespectsConstraint : NodeProp
  | .elem .int32, pd, (i : Int32) =>
      (∀ c, pd.getConstraint = some c → c.isRange = false → c.satisfied (.int32Value i) = true) ∧
        ∀ min max step, pd.getConstraint = some (.intRange min max step) → min ≤ i ∧ i ≤ max
  | .elem .string, pd, (s : String) =>
      ∀ c, pd.getConstraint = some c → c.isRange = false → c.satisfied (.stringValue s) = true
  | _, _, _ => True

/-- A range write lands in the range. -/
theorem applyInt_mem_range {min max step : Int32} (hle : min ≤ max)
    (hwidth : max.toInt - min.toInt ≤ 2 ^ 31 - 1) (s : Int32) :
    min ≤ Constraint.applyInt min max step s ∧ Constraint.applyInt min max step s ≤ max := by
  simp only [Constraint.applyInt, gt_iff_lt]
  split
  · exact ⟨Int32.le_refl _, hle⟩
  rename_i hmin
  split
  · exact ⟨hle, Int32.le_refl _⟩
  rename_i hmax
  rw [Int32.not_lt] at hmin hmax
  split
  · have hs1 := Int32.le_iff_toInt_le.mp hmin
    have hs2 := Int32.le_iff_toInt_le.mp hmax
    have hlow := min.le_toInt
    have hhigh := s.toInt_lt
    have hsub : (s - min).toInt = s.toInt - min.toInt := by
      rw [Int32.toInt_sub]
      apply Int.bmod_eq_of_le <;> omega
    have hmod : ((s - min) % step).toInt = (s.toInt - min.toInt).tmod step.toInt := by
      rw [Int32.toInt_mod, hsub]
    have hnonneg := Int.tmod_nonneg step.toInt (show 0 ≤ s.toInt - min.toInt by omega)
    have hself : (s.toInt - min.toInt).tmod step.toInt ≤ s.toInt - min.toInt := by
      have habs := Int.natAbs_tmod (s.toInt - min.toInt) step.toInt
      have hle := Nat.mod_le (s.toInt - min.toInt).natAbs step.toInt.natAbs
      omega
    have hres : (s - (s - min) % step).toInt =
        s.toInt - (s.toInt - min.toInt).tmod step.toInt := by
      rw [Int32.toInt_sub, hmod]
      apply Int.bmod_eq_of_le <;> omega
    rw [Int32.le_iff_toInt_le, Int32.le_iff_toInt_le, hres]
    omega
  · exact ⟨hmin, hmax⟩

theorem satisfied_of_not_violatesChoice {pd : ParamDescriptor} {src : Value}
    (h : violatesChoice pd src = false) (c : Constraint) (hc : pd.getConstraint = some c)
    (hr : c.isRange = false) : c.satisfied src = true := by
  simpa [violatesChoice, hc, hr] using h

theorem satisfied_of_not_violatesConstraint {pd : ParamDescriptor} {src : Value}
    (h : violatesConstraint pd src = false) (c : Constraint) (hc : pd.getConstraint = some c) :
    c.satisfied src = true := by
  simpa [violatesConstraint, hc] using h

/-- What a valid source denotes respects the constraint at its top. -/
theorem respectsConstraint_of_valid (authz : Authorizer) (t : Ty) (pd : ParamDescriptor)
    (src : Value) (x : t.Val) (hvalid : (validFromProto authz t pd src).isOk = true)
    (hx : denote t pd src = some x) (hrange : pd.SaneRange) : RespectsConstraint t pd x := by
  cases t with
  | empty type subParams => trivial
  | vector e => trivial
  | elem e =>
    cases e with
    | float | struct fields | variant name info ty alternatives => trivial
    | string =>
      obtain ⟨_, _, hchoice, s, rfl⟩ := (validFromProtoElem_string authz pd src).mp hvalid
      obtain rfl : s = x := Option.some.inj hx
      exact fun c hc _ => satisfied_of_not_violatesConstraint hchoice c hc
    | int32 =>
      obtain ⟨_, hchoice, i, rfl⟩ := (validFromProtoElem_int32 authz pd src).mp hvalid
      obtain rfl : (constrained pd (.int32Value i)).getInt32 = x := Option.some.inj hx
      constructor
      · intro c hc hr
        have hsat := satisfied_of_not_violatesChoice hchoice c hc hr
        simpa [constrained, hc, hr, Value.getInt32] using hsat
      · intro min max step hc
        obtain ⟨hle, hwidth⟩ := hrange min max step hc
        simp only [constrained, hc, Constraint.isRange, if_true, Constraint.apply, Value.getInt32]
        exact applyInt_mem_range hle hwidth i

theorem respectsConstraint_stable :
    NodeProp.Stable fun t pd v => pd.SaneRange → RespectsConstraint t pd v := by
  intro segment a t pd v v' h hv
  cases t with
  | empty type subParams => exact fun _ => trivial
  | vector e => exact fun _ => trivial
  | elem e =>
    cases e with
    | int32 | string => cases h
    | float | struct fields | variant name info ty alternatives => exact fun _ => trivial

/-- Constraints hold in every store that a run of client calls leaves. -/
theorem run_respectsConstraint (d : Device)
    (hranges : ∀ path t pd, d.descend path = some (t, pd) → pd.SaneRange) (s : d.State)
    (hs : d.Holds RespectsConstraint s) (calls : List Call) :
    d.Holds RespectsConstraint (d.run s calls) := by
  have hsane : d.Holds (fun t pd v => pd.SaneRange → RespectsConstraint t pd v)
      (d.run s calls) := by
    refine d.run_invariant _ calls ?_ s fun path n hn _ => hs path n hn
    intro c _ path src s₁ s₂ hvalid happly hI
    refine d.holds_of_apply respectsConstraint_stable (fun _ _ _ _ _ => trivial) happly ?_ ?_ hI
    · intro happ t pd x hd hx
      exact every_of_valid c.authz (respectsConstraint_of_valid c.authz) t pd src x
        (hvalid.set happ hd) hx
    · intro happ e pd v x hn hx
      have helem := hvalid.push happ (d.descend_of_nodeAt hn)
      exact ⟨every_of_validElem c.authz (respectsConstraint_of_valid c.authz) e pd src x helem hx,
        fun _ => trivial⟩
  intro path n hn
  exact hsane path n hn (hranges path n.ty n.descriptor (d.descend_of_nodeAt hn))

/-- A device with one INT32_ARRAY whose elements range from 0 to 10. -/
def gainDevice : Device where
  defaults := { defaultScope := "st2138:op" }
  params := .cons "gain" { oid := "gain", constraint := some (.intRange 0 10 1) }
    (.vector .int32) .nil
  wellFormed := ⟨List.not_mem_nil, trivial, trivial⟩

theorem gainDevice_node {path : List Segment} {t : Ty} {pd : ParamDescriptor}
    (h : gainDevice.descend path = some (t, pd)) :
    pd.getConstraint = some (.intRange 0 10 1) ∧ (t = .vector .int32 ∨ t = .elem .int32) := by
  rcases path with _ | ⟨_ | oid, rest⟩
  · cases h
  · cases h
  · obtain ⟨found, hfound, hrest⟩ := Option.bind_eq_some_iff.mp h
    simp only [gainDevice, Fields.find] at hfound
    split at hfound
    · obtain rfl := Option.some.inj hfound
      rcases rest with _ | ⟨_ | _, _ | _⟩
      · obtain ⟨rfl, rfl⟩ := Prod.mk.inj (Option.some.inj hrest)
        exact ⟨rfl, .inl rfl⟩
      · obtain ⟨rfl, rfl⟩ := Prod.mk.inj (Option.some.inj hrest)
        exact ⟨rfl, .inr rfl⟩
      · cases hrest
      · cases hrest
      · cases hrest
    · cases hfound

theorem run_respectsConstraint_gain :
    gainDevice.Holds RespectsConstraint (gainDevice.run (([3, 7] : List Int32), ())
      [.setValue "/gain/-" (.int32Value 99) .kAuthzDisabled]) := by
  refine run_respectsConstraint gainDevice ?_ _ ?_ _
  · intro path t pd hd min max step hc
    rw [(gainDevice_node hd).1] at hc
    cases hc
    exact ⟨by decide, by decide⟩
  · refine gainDevice.holds_of_every (fun _ _ _ _ => trivial) fun oid member hmember => ?_
    simp only [gainDevice, Fields.findParamByName] at hmember
    split at hmember
    · obtain rfl := Option.some.inj hmember
      refine ⟨trivial, fun (x : Int32) (hx : x ∈ [3, 7]) =>
        ⟨fun c hc hr => ?_, fun min max step hc => ?_⟩⟩
      · cases hc
        cases hr
      · cases hc
        have hmem : x = 3 ∨ x = 7 := by simpa using hx
        obtain rfl | rfl := hmem
        · exact ⟨by decide, by decide⟩
        · exact ⟨by decide, by decide⟩
    · cases hmember

end Catena.Store
