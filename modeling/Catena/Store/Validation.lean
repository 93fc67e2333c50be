import Catena.Store.Accept

/-!
# The validation loop of a multi-set

One pass of the loop of `tryMultiSetValue` looks for an overlap with the oids recorded so far
and then validates the entry on its own. An entry that overlaps leaves a status behind, and no
later entry is validated or recorded; an entry that is not valid ends the loop.
-/

namespace Catena.Store

open ExceptionWithStatus (ok)

def SetValuePayload.Parses (p : SetValuePayload) : Prop := ∃ path, Path.parse p.oid = .ok path

namespace Device

def NoOverlap (oids : List String) : Prop := oids.Pairwise fun a b => overlapping a b = false

instance (oids : List String) : Decidable (NoOverlap oids) :=
  inferInstanceAs (Decidable (oids.Pairwise _))

def overlapStatus (oid next : String) : ExceptionWithStatus :=
  ⟨"Overlapping actions for " ++ oid ++ " and " ++ next, .invalidArgument⟩

def IsOverlapStatus (ans : ExceptionWithStatus) : Prop := ∃ oid next, ans = overlapStatus oid next

theorem IsOverlapStatus.not_ok {ans : ExceptionWithStatus} (h : IsOverlapStatus ans) :
    ans.isOk = false := by
  obtain ⟨oid, next, rfl⟩ := h
  rfl

theorem noOverlap_append_singleton {oids : List String} {oid : String} :
    NoOverlap (oids ++ [oid]) ↔ NoOverlap oids ∧ ∀ a ∈ oids, overlapping a oid = false := by
  simp [NoOverlap, List.pairwise_append]

theorem noOverlap_left {oids oids' : List String} (h : NoOverlap (oids ++ oids')) :
    NoOverlap oids := (List.pairwise_append.mp h).1

variable (d : Device) (s : d.State) (authz : Authorizer)

/-- The validation of one entry on its own. -/
def tryEntry (payload : SetValuePayload) : Except Thrown ExceptionWithStatus :=
  match Path.parse payload.oid with
  | .error why => .error why
  | .ok path =>
      let index := (Path.backIndex path).getD Path.kNone
      let path := if (Path.backIndex path).isSome then Path.popBack path else path
      match d.getParam s path authz with
      | .error status => .ok status
      | .ok param => .ok (param.validateSetValue authz payload.value index).1

/-- The entry is valid against the current state. -/
def Valid (payload : SetValuePayload) : Prop :=
  ∃ ans, d.tryEntry s authz payload = .ok ans ∧ ans.isOk = true

/-- What follows the loop: the trackers are reset, then the status is answered. -/
def finish : Except Thrown (ExceptionWithStatus × List String) → Except Thrown ExceptionWithStatus
  | .error why => .error why
  | .ok (ans, affectedOids) =>
      match resetLoop affectedOids with
      | .error why => .error why
      | .ok _ => .ok ans

variable {d s authz}

theorem tryMultiSetValue_eq (src : List SetValuePayload) :
    d.tryMultiSetValue s src authz =
      if 1 < src.length ∧ !d.multiSetEnabled then
        .ok ⟨"Multi-set is disabled for the device in slot " ++ toString d.slot,
          .permissionDenied⟩
      else finish (d.tryLoop s authz src ok []) := by
  rw [tryMultiSetValue]
  split
  · rfl
  · cases d.tryLoop s authz src ok [] <;> rfl

theorem parses_of_valid {payload : SetValuePayload} (h : d.Valid s authz payload) :
    payload.Parses := by
  obtain ⟨ans, hans, -⟩ := h
  cases hparse : Path.parse payload.oid with
  | error why =>
    rw [tryEntry, hparse] at hans
    cases hans
  | ok path => exact ⟨path, hparse⟩

/-! ## The loop that resets the trackers -/

theorem resetLoop_ok {oids : List String} (h : ∀ oid ∈ oids, ∃ path, Path.parse oid = .ok path) :
    resetLoop oids = .ok () := by
  induction oids with
  | nil => rfl
  | cons oid oids ih =>
    obtain ⟨path, hpath⟩ := h oid List.mem_cons_self
    rw [resetLoop, hpath]
    exact ih fun a ha => h a (List.mem_cons_of_mem _ ha)

theorem resetLoop_append_error {oids : List String} {oid : String} {why : Thrown}
    (h : ∀ a ∈ oids, ∃ path, Path.parse a = .ok path) (hoid : Path.parse oid = .error why) :
    resetLoop (oids ++ [oid]) = .error why := by
  induction oids with
  | nil => rw [List.nil_append, resetLoop, hoid]
  | cons a oids ih =>
    obtain ⟨path, hpath⟩ := h a List.mem_cons_self
    rw [List.cons_append, resetLoop, hpath]
    exact ih fun b hb => h b (List.mem_cons_of_mem _ hb)

/-! ## One pass of the loop -/

section step

variable {payload : SetValuePayload} {payloads : List SetValuePayload} {ans : ExceptionWithStatus}
  {oids : List String}

/-- Once the status is not OK nothing more is recorded. -/
theorem tryLoop_stopped (hans : ans.isOk = false) :
    ∃ ans', d.tryLoop s authz payloads ans oids = .ok (ans', oids) ∧ ans'.isOk = false ∧
      (IsOverlapStatus ans → IsOverlapStatus ans') := by
  induction payloads generalizing ans with
  | nil => exact ⟨ans, rfl, hans, id⟩
  | cons payload payloads ih =>
    rw [tryLoop]
    cases oids.find? (overlapping · payload.oid) with
    | some oid =>
      obtain ⟨ans', hloop, hans', hover⟩ := @ih (overlapStatus oid payload.oid) rfl
      exact ⟨ans', hloop, hans', fun _ => hover ⟨oid, payload.oid, rfl⟩⟩
    | none =>
      simp only [hans, Bool.not_false, if_true]
      exact ih hans

theorem tryLoop_overlap (h : ∃ oid ∈ oids, overlapping oid payload.oid = true) :
    ∃ ans', d.tryLoop s authz (payload :: payloads) ans oids = .ok (ans', oids) ∧
      IsOverlapStatus ans' := by
  obtain ⟨oid, hoid⟩ : ∃ oid, oids.find? (overlapping · payload.oid) = some oid := by
    apply Option.isSome_iff_exists.mp
    rw [List.find?_isSome]
    exact h
  obtain ⟨ans', hloop, -, hover⟩ := @tryLoop_stopped d s authz payloads
    (overlapStatus oid payload.oid) oids rfl
  refine ⟨ans', ?_, hover ⟨oid, payload.oid, rfl⟩⟩
  rw [tryLoop, hoid]
  exact hloop

theorem find?_eq_none (h : ∀ oid ∈ oids, overlapping oid payload.oid = false) :
    oids.find? (overlapping · payload.oid) = none := by
  rw [List.find?_eq_none]
  intro oid hoid
  rw [h oid hoid]
  exact Bool.false_ne_true

/-- The loop goes on behind a payload that is valid on its own and ends with the others. -/
theorem tryLoop_cons {ans' : ExceptionWithStatus} (hans : ans.isOk = true)
    (h : ∀ oid ∈ oids, overlapping oid payload.oid = false)
    (hentry : d.tryEntry s authz payload = .ok ans') :
    d.tryLoop s authz (payload :: payloads) ans oids =
      if ans'.isOk then d.tryLoop s authz payloads ans' (oids ++ [payload.oid])
      else .ok (ans', oids ++ [payload.oid]) := by
  rw [tryLoop, find?_eq_none h]
  simp only [hans, Bool.not_true, Bool.false_eq_true, if_false]
  cases hparse : Path.parse payload.oid with
  | error why =>
    rw [tryEntry, hparse] at hentry
    cases hentry
  | ok path =>
    simp only [tryEntry, hparse] at hentry
    simp only
    cases hget : d.getParam s
        (if (Path.backIndex path).isSome then Path.popBack path else path) authz with
    | error status =>
      rw [hget] at hentry
      obtain rfl := Except.ok.inj hentry
      rw [d.getParam_error hget, if_neg Bool.false_ne_true]
    | ok param =>
      rw [hget] at hentry
      obtain rfl := Except.ok.inj hentry
      rfl

theorem tryLoop_valid {ans' : ExceptionWithStatus} (hans : ans.isOk = true)
    (h : ∀ oid ∈ oids, overlapping oid payload.oid = false)
    (hentry : d.tryEntry s authz payload = .ok ans') (hans' : ans'.isOk = true) :
    d.tryLoop s authz (payload :: payloads) ans oids =
      d.tryLoop s authz payloads ans' (oids ++ [payload.oid]) := by
  rw [tryLoop_cons hans h hentry, if_pos hans']

theorem tryLoop_invalid {ans' : ExceptionWithStatus} (hans : ans.isOk = true)
    (h : ∀ oid ∈ oids, overlapping oid payload.oid = false)
    (hentry : d.tryEntry s authz payload = .ok ans') (hans' : ans'.isOk = false) :
    d.tryLoop s authz (payload :: payloads) ans oids = .ok (ans', oids ++ [payload.oid]) := by
  rw [tryLoop_cons hans h hentry, hans', if_neg Bool.false_ne_true]

/-- An oid that is not a path has been recorded when its exception is caught, and the reset
throws the exception again. -/
theorem finish_tryLoop_unparsed (hans : ans.isOk = true)
    (h : ∀ oid ∈ oids, overlapping oid payload.oid = false)
    (hoids : ∀ oid ∈ oids, ∃ path, Path.parse oid = .ok path) (hparse : ¬payload.Parses) :
    ∃ why, finish (d.tryLoop s authz (payload :: payloads) ans oids) = .error why := by
  cases herror : Path.parse payload.oid with
  | ok path => exact absurd ⟨path, herror⟩ hparse
  | error why =>
    refine ⟨why, ?_⟩
    rw [tryLoop, find?_eq_none h]
    simp only [hans, Bool.not_true, Bool.false_eq_true, if_false, herror]
    cases why with
    | outOfRange => rfl
    | withStatus why =>
      simp only [finish]
      rw [resetLoop_append_error hoids herror]

end step

/-! ## The whole loop -/

/-- An entry that is not a path is reached: the entries before it are valid, and nothing up to
it overlaps. -/
def ReachesUnparsed (d : Device) (s : d.State) (authz : Authorizer) (oids : List String)
    (payloads : List SetValuePayload) : Prop :=
  ∃ before p after, payloads = before ++ p :: after ∧ ¬p.Parses ∧
    (∀ q ∈ before, d.Valid s authz q) ∧ NoOverlap (oids ++ (before ++ [p]).map (·.oid))

section run

variable {payload : SetValuePayload} {payloads : List SetValuePayload} {oids : List String}

theorem reachesUnparsed_cons (hoids : NoOverlap oids) :
    d.ReachesUnparsed s authz oids (payload :: payloads) ↔
      (∀ oid ∈ oids, overlapping oid payload.oid = false) ∧
        (¬payload.Parses ∨ d.Valid s authz payload ∧
          d.ReachesUnparsed s authz (oids ++ [payload.oid]) payloads) := by
  constructor
  · rintro ⟨before, p, after, hsplit, hp, hbefore, hover⟩
    cases before with
    | nil =>
      obtain ⟨rfl, rfl⟩ := List.cons.inj hsplit
      exact ⟨(noOverlap_append_singleton.mp hover).2, Or.inl hp⟩
    | cons q before =>
      obtain ⟨rfl, hrest⟩ := List.cons.inj hsplit
      have hshift : oids ++ (payload :: before ++ [p]).map (·.oid) =
          oids ++ [payload.oid] ++ (before ++ [p]).map (·.oid) := by simp
      rw [hshift] at hover
      refine ⟨(noOverlap_append_singleton.mp (noOverlap_left hover)).2, Or.inr ⟨?_, ?_⟩⟩
      · exact hbefore payload List.mem_cons_self
      · exact ⟨before, p, after, hrest, hp, fun q hq => hbefore q (List.mem_cons_of_mem _ hq),
          hover⟩
  · rintro ⟨hover, hp | ⟨hvalid, before, p, after, rfl, hp, hbefore, hrest⟩⟩
    · refine ⟨[], payload, payloads, rfl, hp, by simp, ?_⟩
      exact noOverlap_append_singleton.mpr ⟨hoids, hover⟩
    · refine ⟨payload :: before, p, after, rfl, hp, ?_, ?_⟩
      · exact List.forall_mem_cons.mpr ⟨hvalid, hbefore⟩
      · simpa using hrest

/-- The loop and the reset after it throw exactly when they reach an oid that is no path. -/
theorem finish_tryLoop_error_iff {ans : ExceptionWithStatus} (hans : ans.isOk = true)
    (hoids : NoOverlap oids) (hparses : ∀ oid ∈ oids, ∃ path, Path.parse oid = .ok path) :
    (∃ why, finish (d.tryLoop s authz payloads ans oids) = .error why) ↔
      d.ReachesUnparsed s authz oids payloads := by
  induction payloads generalizing ans oids with
  | nil =>
    constructor
    · rintro ⟨why, h⟩
      rw [tryLoop, finish, resetLoop_ok hparses] at h
      cases h
    · rintro ⟨before, p, after, h, -⟩
      simp at h
  | cons payload payloads ih =>
    rw [reachesUnparsed_cons hoids]
    by_cases hover : ∀ oid ∈ oids, overlapping oid payload.oid = false
    · by_cases hparse : payload.Parses
      · obtain ⟨ans', hentry⟩ : ∃ ans', d.tryEntry s authz payload = .ok ans' := by
          obtain ⟨path, hpath⟩ := hparse
          simp only [tryEntry, hpath]
          split
          · exact ⟨_, rfl⟩
          · exact ⟨_, rfl⟩
        have hnext : ∀ oid ∈ oids ++ [payload.oid], ∃ path, Path.parse oid = .ok path := by
          intro oid hoid
          rcases List.mem_append.mp hoid with hoid | hoid
          · exact hparses oid hoid
          · rw [List.mem_singleton.mp hoid]
            exact hparse
        by_cases hans' : ans'.isOk = true
        · have hvalid : d.Valid s authz payload := ⟨ans', hentry, hans'⟩
          rw [tryLoop_valid hans hover hentry hans',
            ih hans' (noOverlap_append_singleton.mpr ⟨hoids, hover⟩) hnext]
          simp only [hparse, hvalid, not_true_eq_false, true_and, false_or, and_iff_right hover]
        · have hnot : ¬d.Valid s authz payload := by
            rintro ⟨ans'', hentry', hok⟩
            rw [hentry] at hentry'
            obtain rfl := Except.ok.inj hentry'
            exact hans' hok
          rw [tryLoop_invalid hans hover hentry (Bool.eq_false_iff.mpr hans'), finish,
            resetLoop_ok hnext]
          simp [hparse, hnot]
      · simp only [hparse, not_false_eq_true, true_or, and_true]
        exact iff_of_true (finish_tryLoop_unparsed hans hover hparses hparse) hover
    · have hsome : ∃ oid ∈ oids, overlapping oid payload.oid = true := by
        simpa using hover
      obtain ⟨ans', hloop, -⟩ := @tryLoop_overlap d s authz payload payloads ans oids hsome
      rw [hloop, finish, resetLoop_ok hparses]
      simp [hover]

/-- When every entry is valid on its own, the loop ends with an OK status exactly if no two
oids overlap, and otherwise with the status of an overlap. -/
theorem tryLoop_of_valid {ans : ExceptionWithStatus} (hans : ans.isOk = true)
    (hoids : NoOverlap oids) (hvalid : ∀ p ∈ payloads, d.Valid s authz p) :
    ∃ ans' oids', d.tryLoop s authz payloads ans oids = .ok (ans', oids') ∧
      (∀ oid ∈ oids', oid ∈ oids ∨ ∃ p ∈ payloads, p.oid = oid) ∧
      (ans'.isOk = true ↔ NoOverlap (oids ++ payloads.map (·.oid))) ∧
      (ans'.isOk = true ∨ IsOverlapStatus ans') := by
  induction payloads generalizing ans oids with
  | nil => exact ⟨ans, oids, rfl, fun oid h => Or.inl h, by simp [hans, hoids], Or.inl hans⟩
  | cons payload payloads ih =>
    by_cases hover : ∀ oid ∈ oids, overlapping oid payload.oid = false
    · obtain ⟨ans₁, hentry, hans₁⟩ := hvalid payload List.mem_cons_self
      obtain ⟨ans', oids', hloop, hmem, hok, hcases⟩ := @ih (oids ++ [payload.oid]) ans₁ hans₁
        (noOverlap_append_singleton.mpr ⟨hoids, hover⟩)
        fun p hp => hvalid p (List.mem_cons_of_mem _ hp)
      refine ⟨ans', oids', (tryLoop_valid hans hover hentry hans₁).trans hloop, ?_, ?_, hcases⟩
      · intro oid hoid
        rcases hmem oid hoid with h | ⟨p, hp, h⟩
        · rcases List.mem_append.mp h with h | h
          · exact Or.inl h
          · exact Or.inr ⟨payload, List.mem_cons_self, (List.mem_singleton.mp h).symm⟩
        · exact Or.inr ⟨p, List.mem_cons_of_mem _ hp, h⟩
      · rw [hok, List.append_assoc, List.map_cons, List.singleton_append]
    · have hsome : ∃ oid ∈ oids, overlapping oid payload.oid = true := by
        simpa using hover
      obtain ⟨ans', hloop, hstatus⟩ :=
        @tryLoop_overlap d s authz payload payloads ans oids hsome
      refine ⟨ans', oids, hloop, fun oid h => Or.inl h, ?_, Or.inr hstatus⟩
      rw [hstatus.not_ok]
      constructor
      · intro h
        cases h
      · intro h
        rw [List.map_cons, ← List.singleton_append, ← List.append_assoc] at h
        exact absurd (noOverlap_append_singleton.mp (noOverlap_left h)).2 hover

end run

end Device

end Catena.Store
