import Catena.Framework.Turns
import Catena.Grpc.Server
import Catena.Store.Exceptions

/-!
# The turns of the streams

What the turns of a controller that streams keep, from what its code keeps in each state. A check
that fails ends a stream before its first message, with a status other than OK.
-/

namespace Catena.Grpc

open Store Rpc Framework Framework.Completion

variable {i : Controller}

/-! ## Statuses -/

theorem Status.number_eq_zero_iff {code : StatusCode} : number code = 0 ↔ code = .ok := by
  cases code <;> decide

theorem Status.code_ofRc_ne_zero {rc : ExceptionWithStatus} (h : rc.isOk = false) :
    (Status.ofRc rc).code ≠ 0 := by
  intro hcode
  have hok : rc.status = .ok := Status.number_eq_zero_iff.mp hcode
  rw [ExceptionWithStatus.isOk, hok] at h
  cases h

theorem Config.checkSlot_error {cfg : Config} {slot : Nat} {rc : ExceptionWithStatus}
    (h : cfg.checkSlot slot = .error rc) : rc.isOk = false := by
  rw [checkSlot] at h
  split at h
  · obtain rfl := Except.error.inj h
    rfl
  · split at h
    · obtain rfl := Except.error.inj h
      rfl
    · cases h

theorem Config.authorizer_error {cfg : Config} {authorization : Option String}
    {rc : ExceptionWithStatus} (h : cfg.authorizer authorization = .error rc) :
    rc.isOk = false := by
  rw [authorizer] at h
  split at h
  · cases hauthorization : authorization with
    | none =>
      rw [hauthorization] at h
      obtain rfl := Except.error.inj h
      rfl
    | some data =>
      rw [hauthorization, jwsToken] at h
      split at h
      · dsimp only [bind, Except.bind] at h
        split at h
        · cases h
        · obtain rfl := Except.error.inj h
          rfl
      · obtain rfl := Except.error.inj h
        rfl
  · cases h

/-! ## What the code of a turn keeps -/

section

variable {J : grpc.State i → List (Action × World) → List (Op grpc i) → Prop} {x : grpc.State i}
  {ws : List (Action × World)} {ops : List (Op grpc i)}

theorem keeps_attempt {α : Type} {fail : Status → Code grpc i} {r : Except ExceptionWithStatus α}
    {rest : α → Code grpc i} (hfail : ∀ rc, r = .error rc → (fail (.ofRc rc)).Keeps J x ws ops)
    (hrest : ∀ a, r = .ok a → (rest a).Keeps J x ws ops) :
    (attempt fail r rest).Keeps J x ws ops := by
  cases r with
  | error rc => exact hfail rc rfl
  | ok a => exact hrest a rfl

theorem keeps_withDevice {a : Action} {slot : Nat} {rest : World → ServedDevice → Code grpc i}
    (hrest : ∀ w d, w.devices slot = some d → (rest w d).Keeps J x (ws ++ [(a, w)]) ops) :
    (withDevice a slot rest).Keeps J x ws ops := by
  intro w
  change ((w.devices slot).elim .abort (rest w)).Keeps J x (ws ++ [(a, w)]) ops
  cases hd : w.devices slot with
  | none => exact trivial
  | some d => exact hrest w d hd

/-- Each oid is added in a section of its own. -/
theorem keeps_addSubscriptions {slot : Nat} {authz : Authorizer} {fail : Status → Code grpc i}
    {rest : Code grpc i} {oids : List String}
    (hfail : ∀ ws rc, rc.code ≠ 0 → (fail rc).Keeps J x ws ops)
    (hrest : ∀ ws', ws'.map Prod.fst = oids.map (Action.addSubscription slot · authz) →
      rest.Keeps J x (ws ++ ws') ops) :
    (addSubscriptions slot authz fail rest oids).Keeps J x ws ops := by
  induction oids generalizing ws with
  | nil =>
    have hkeeps := hrest [] rfl
    rw [List.append_nil] at hkeeps
    exact hkeeps
  | cons oid oids ih =>
    apply keeps_withDevice
    intro w d _
    have hrest' : (addSubscriptions slot authz fail rest oids).Keeps J x
        (ws ++ [(Action.addSubscription slot oid authz, w)]) ops := by
      apply ih
      intro ws' hws'
      rw [List.append_assoc]
      exact hrest _ (congrArg (_ :: ·) hws')
    cases hadded : w.subscriptions.addSubscription oid d.device d.values authz with
    | ok added => exact hrest'
    | error stop =>
      cases stop with
      | outOfFuel => exact trivial
      | threw thrown =>
        cases thrown with
        | withStatus why =>
          exact hfail _ _ (Status.code_ofRc_ne_zero
            (SubscriptionManager.addSubscription_threw hadded))
        | outOfRange => exact hfail _ _ (by decide)

theorem keeps_removeSubscriptions {slot : Nat} {rest : Code grpc i} {oids : List String}
    (hrest : ∀ ws', ws'.map Prod.fst = oids.map (Action.removeSubscription slot) →
      rest.Keeps J x (ws ++ ws') ops) :
    (removeSubscriptions slot rest oids).Keeps J x ws ops := by
  induction oids generalizing ws with
  | nil =>
    have hkeeps := hrest [] rfl
    rw [List.append_nil] at hkeeps
    exact hkeeps
  | cons oid oids ih =>
    intro w
    apply ih
    intro ws' hws'
    rw [List.append_assoc]
    exact hrest _ (congrArg (_ :: ·) hws')

end

/-! ## A controller by its states -/

/-- What the code of a controller keeps in each state, its turns keep. -/
theorem keeps_stream {cfg : Config} {J : Relation grpc} (status : i.State → CallStatus)
    (enter : i.State → CallStatus → i.State) (illegal : i.Answer)
    (process write postWrite : i.Request → i.State → Code grpc i)
    (hphase : ∀ x, phase i x = (status x).phase)
    (hproceed : ∀ q x ok, proceed cfg i q x ok =
      turn (enter x) (status x) ok illegal (process q x) (write q x) (postWrite q x))
    (hfresh : status (fresh i) = .kCreate)
    (hcreate : J i (blank i) (enter (fresh i) .kProcess) [] [.request])
    (hprocess : ∀ q q' x ws, status x = .kProcess → J i q x ws [.request] →
      J i q' (enter x .kFinish) ws [.request] ∧ (process q' x).Keeps (J i q') x ws [.request])
    (hread : ∀ q x ws ops, status x = .kRead → ¬J i q x ws ops)
    (hwrite : ∀ q x ws ops, status x = .kWrite → J i q x ws ops →
      J i q (enter x .kFinish) ws ops ∧ (write q x).Keeps (J i q) x ws ops)
    (hpostWrite : ∀ q x ws ops, status x = .kPostWrite → J i q x ws ops →
      J i q (enter x .kFinish) ws ops ∧ (postWrite q x).Keeps (J i q) x ws ops)
    (hfinish : ∀ q x ws ops, status x = .kFinish → J i q x ws ops →
      J i q (enter x .kFinish) ws ops) :
    Keeps (server cfg) phase J i := by
  have hturn (q : i.Request) (x : i.State) (ok : Bool) : (server cfg).proceed i q x ok =
      turn (enter x) (status x) ok illegal (process q x) (write q x) (postWrite q x) :=
    hproceed q x ok
  constructor
  · have hcreating : (server cfg).fresh i = fresh i := rfl
    rw [hturn, hcreating, hfresh]
    exact hcreate
  · intro q q' x ws ok hwaiting h
    have hstatus : status x = .kProcess := by
      rw [hphase] at hwaiting
      cases hs : status x <;> rw [hs] at hwaiting <;> first | rfl | cases hwaiting
    obtain ⟨hfailed, hkeeps⟩ := hprocess q q' x ws hstatus h
    rw [hturn, hstatus]
    cases ok with
    | false => exact hfailed
    | true => exact hkeeps
  · intro q x ws ops ok hlater h
    rw [hphase] at hlater
    rw [hturn]
    cases hs : status x with
    | kCreate =>
      rw [hs] at hlater
      rcases hlater with hlater | hlater <;> cases hlater
    | kProcess =>
      rw [hs] at hlater
      rcases hlater with hlater | hlater <;> cases hlater
    | kRead => exact absurd h (hread q x ws ops hs)
    | kWrite =>
      obtain ⟨hfailed, hkeeps⟩ := hwrite q x ws ops hs h
      cases ok with
      | false => exact hfailed
      | true => exact hkeeps
    | kPostWrite =>
      obtain ⟨hfailed, hkeeps⟩ := hpostWrite q x ws ops hs h
      cases ok with
      | false => exact hfailed
      | true => exact hkeeps
    | kFinish =>
      cases ok with
      | false => exact hfinish q x ws ops hs h
      | true => exact h

/-! ## What a stream has posted -/

/-- What a stream has posted between two turns, if `Sends` says what its messages are, and whether
they are all. -/
inductive Streamed (i : Controller) (OK : grpc.Answer i) (refusal : grpc.Answer i → Prop)
    (Sends : List (grpc.Message i) → Bool → Prop) : List (Op grpc i) → Prop
  | created : Streamed i OK refusal Sends []
  | waiting : Streamed i OK refusal Sends (trace [] none)
  | refused (r : grpc.Answer i) (h : refusal r) : Streamed i OK refusal Sends (trace [] (some r))
  | sending (ms : List (grpc.Message i)) (h : Sends ms false) :
      Streamed i OK refusal Sends (trace ms none)
  | complete (ms : List (grpc.Message i)) (h : Sends ms true) :
      Streamed i OK refusal Sends (trace ms (some OK))

end Catena.Grpc
