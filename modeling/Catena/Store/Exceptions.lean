import Catena.Store.Unsubscribe

/-!
# Exceptions of a subscription

What escapes from `addSubscription` comes from the constructor of a path, whose exceptions carry
an error. A handler that catches one never goes on as if nothing had happened.
-/

namespace Catena.Store

open Framework

variable {d : Device} {s : d.State} {authz : Authorizer} {why : ExceptionWithStatus}

theorem Path.parse_ne_error {jptr : String} (hwhy : why.isOk = true) :
    Path.parse jptr ≠ .error (.withStatus why) := by
  intro h
  cases hwhy.symm.trans (Path.parse_error h)

namespace Device

theorem traverseChild_ne_threw {traverse : Param d.State → String → Except Stop (List Visit)}
    {text segment : String} (hwhy : why.isOk = true)
    (htraverse : ∀ param path, traverse param path ≠ .error (.threw (.withStatus why))) :
    d.traverseChild s authz traverse text segment ≠ .error (.threw (.withStatus why)) := by
  intro h
  rw [traverseChild] at h
  split at h
  · rename_i hparse
    obtain rfl := Stop.threw.inj (Except.error.inj h)
    exact Path.parse_ne_error hwhy hparse
  · dsimp only at h
    split at h
    · cases h
    · split at h
      · exact htraverse _ _ h
      · cases h

theorem traverseParams_ne_threw (hwhy : why.isOk = true) (fuel : Nat) (param : Param d.State)
    (text : String) :
    d.traverseParams s authz fuel param text ≠ .error (.threw (.withStatus why)) := by
  induction fuel generalizing param text with
  | zero =>
    intro h
    cases h
  | succ fuel ih =>
    rw [traverseParams]
    apply bind_ne_error (collect_ne_error (fun i => traverseChild_ne_threw hwhy ih) _)
    intro elements
    apply bind_ne_error
    · apply collect_ne_error
      intro name
      split
      · intro h
        cases h
      · exact traverseChild_ne_threw hwhy ih
    · intro children h
      cases h

/-- The names of the parameters end the loop only by a number that is too large. -/
theorem topLevelLoop_ne_error (params : List (String × ParamDescriptor))
    (status : ExceptionWithStatus) :
    d.topLevelLoop s authz params status ≠ .error (.withStatus why) := by
  induction params generalizing status with
  | nil =>
    intro h
    cases h
  | cons param params ih =>
    rw [topLevelLoop]
    split
    · split
      · intro h
        cases h
      · intro h
        cases h
      · dsimp only
        split
        · exact ih _
        · apply bind_ne_error (ih status)
          intro found h
          cases h
    · exact ih status

end Device

theorem subscribe_ne_threw (hwhy : why.isOk = true) (visits : List Visit) (oids : Finset String) :
    subscribe visits oids ≠ .error (.threw (.withStatus why)) := by
  induction visits generalizing oids with
  | nil =>
    intro h
    cases h
  | cons visit visits ih =>
    rw [subscribe]
    split
    · rename_i hparse
      intro h
      obtain rfl := Stop.threw.inj (Except.error.inj h)
      exact Path.parse_ne_error hwhy hparse
    · exact ih _

theorem Device.subscribeAll_ne_threw (hwhy : why.isOk = true) (params : List (Param d.State))
    (oids : Finset String) :
    d.subscribeAll s authz params oids ≠ .error (.threw (.withStatus why)) := by
  induction params generalizing oids with
  | nil =>
    intro h
    cases h
  | cons param params ih =>
    rw [subscribeAll]
    split
    · apply bind_ne_error (traverseParams_ne_threw hwhy _ _ _)
      intro visits
      apply bind_ne_error (subscribe_ne_threw hwhy _ _)
      exact fun oids => ih oids
    · exact ih oids

/-- The exceptions of `addSubscription` carry an error. -/
theorem SubscriptionManager.addSubscription_threw {m : SubscriptionManager} {oid : String}
    (h : m.addSubscription oid d s authz = .error (.threw (.withStatus why))) :
    why.isOk = false := by
  by_contra hnot
  have hwhy : why.isOk = true := Bool.not_eq_false _ ▸ hnot
  revert h
  rw [addSubscription]
  cases isWildcard oid with
  | false =>
    simp only [Bool.not_false, if_true, Bool.false_eq_true, if_false]
    intro h
    split at h
    · cases h
    · cases hget : d.getParamByOid s oid authz <;> rw [hget] at h <;> cases h
  | true =>
    simp only [Bool.not_true, Bool.false_eq_true, if_false, if_true]
    split
    · cases d.getParamByOid s (baseOf oid) authz with
      | error rc =>
        intro h
        cases h
      | ok param =>
        apply bind_ne_error (Device.traverseParams_ne_threw hwhy _ _ _)
        intro visits
        apply bind_ne_error (subscribe_ne_threw hwhy _ _)
        intro oids h
        cases h
    · intro h
      split at h
      · rename_i htop
        obtain rfl := Stop.threw.inj (Except.error.inj h)
        exact Device.topLevelLoop_ne_error _ _ htop
      · revert h
        apply bind_ne_error (Device.subscribeAll_ne_threw hwhy _ _)
        intro oids h
        cases h

end Catena.Store
