import Catena.Store.Entry

/-!
# Runs of client calls

A property of the store that every valid entry preserves holds after every run of calls, also
where a run ends in the middle of a commit.
-/

namespace Catena.Store

open ExceptionWithStatus (ok)

namespace Call

def payloads : Call → List SetValuePayload
  | .setValue jptr src _ => [⟨jptr, src⟩]
  | .multiSetValue src _ => src

def authz : Call → Authorizer
  | .setValue _ _ authz | .multiSetValue _ authz => authz

end Call

namespace Device

variable (d : Device)

theorem call_eq_multiSetValue (s : d.State) (c : Call) :
    d.call s c = d.multiSetValue s c.payloads c.authz := by
  cases c <;> rfl

/-- The commit loop either takes the step of its first entry or meets a null pointer. -/
theorem commitLoop_cons (authz : Authorizer) (payload : SetValuePayload)
    (payloads : List SetValuePayload) (ans : ExceptionWithStatus) (s : d.State)
    (hparse : Path.parse payload.oid = .ok payload.path) :
    (∃ rc s', d.commitStep authz payload.path payload.value s = some (rc, s') ∧
      d.commitLoop authz (payload :: payloads) ans s = d.commitLoop authz payloads rc s') ∨
    ((¬d.ReadableAlong authz (Path.target payload.path) ∨
        d.commitStep authz payload.path payload.value s = none) ∧
      d.commitLoop authz (payload :: payloads) ans s = .nullDereference s) := by
  have hstep := fun rc s' =>
    d.commitTarget_fromProto s s' payload.path authz payload.value rc
  simp only [commitLoop, hparse]
  cases ht : d.commitTarget s payload.path authz with
  | none =>
    right
    refine ⟨?_, rfl⟩
    by_cases hread : d.ReadableAlong authz (Path.target payload.path)
    · right
      cases hc : d.commitStep authz payload.path payload.value s with
      | none => rfl
      | some r =>
        have hsome := (hstep r.1 r.2).mpr ⟨hread, hc⟩
        rw [ht] at hsome
        cases hsome
    · exact .inl hread
  | some p =>
    left
    refine ⟨_, _, ((hstep _ _).mp ?_).2, rfl⟩
    rw [ht]
    rfl

theorem commitLoop_invariant (I : d.State → Prop) {authz : Authorizer}
    (src : List SetValuePayload)
    (hparse : ∀ payload ∈ src, Path.parse payload.oid = .ok payload.path)
    (hstep : ∀ payload ∈ src, ∀ s s' rc, I s →
      d.commitStep authz payload.path payload.value s = some (rc, s') → I s')
    (ans : ExceptionWithStatus) (s : d.State) (hI : I s) :
    I (d.commitLoop authz src ans s).store := by
  induction src generalizing ans s with
  | nil => exact hI
  | cons payload payloads ih =>
    have hrest := ih (fun p hp => hparse p (by simp [hp])) fun p hp => hstep p (by simp [hp])
    obtain ⟨rc, s', hs', heq⟩ | ⟨_, heq⟩ :=
      d.commitLoop_cons authz payload payloads ans s (hparse payload (by simp))
    · rw [heq]
      exact hrest rc s' (hstep payload (by simp) s s' rc hI hs')
    · rw [heq]
      exact hI

theorem call_invariant (I : d.State → Prop) (s : d.State) (c : Call)
    (happly : ∀ path src s₁ s₂, d.ValidEntry c.authz path src →
      d.apply path src s₁ = some ((), s₂) → I s₁ → I s₂) (hI : I s) : I (d.call s c).store := by
  rw [call_eq_multiSetValue, multiSetValue]
  split
  · exact hI
  · rename_i ans htry
    split
    · rename_i hok
      have hacc := d.accepted_of_try htry hok
      refine d.commitLoop_invariant I c.payloads (fun p hp => (hacc p hp).1) ?_ ok s hI
      intro payload hp s₁ s₂ rc hI₁ hstep
      by_cases hnone : Path.backIndex payload.path = some Path.kNone
      · rw [d.unchanged_of_noIndex (hacc payload hp).2 hnone hstep]
        exact hI₁
      · have hvalid := d.validEntry_of_accepted (hacc payload hp).2 hnone
        exact happly _ _ _ _ hvalid (d.apply_of_commitStep hvalid hstep).2.2 hI₁
    · exact hI

theorem run_cons (s : d.State) (c : Call) (cs : List Call) :
    d.run s (c :: cs) = (d.call s c).store ∨ d.run s (c :: cs) = d.run (d.call s c).store cs := by
  simp only [run]
  cases d.call s c with
  | returned ans s' => exact .inr rfl
  | threw why s' => exact .inr rfl
  | nullDereference s' => exact .inl rfl

theorem run_invariant (I : d.State → Prop) (calls : List Call)
    (happly : ∀ c ∈ calls, ∀ path src s₁ s₂, d.ValidEntry c.authz path src →
      d.apply path src s₁ = some ((), s₂) → I s₁ → I s₂) (s : d.State) (hI : I s) :
    I (d.run s calls) := by
  induction calls generalizing s with
  | nil => exact hI
  | cons c cs ih =>
    have hc := d.call_invariant I s c (happly c (by simp)) hI
    obtain heq | heq := d.run_cons s c cs
    · rw [heq]
      exact hc
    · rw [heq]
      exact ih (fun c' hc' => happly c' (by simp [hc'])) _ hc

end Device

end Catena.Store
