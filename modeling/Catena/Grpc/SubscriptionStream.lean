import Catena.Grpc.DeviceStream

/-!
# What an update of the subscriptions sends

An update adds and removes its oids, one section each, reads the set of subscribed oids in one
section, and looks at each of these in a section of its own. What it sends is what the device lists
for the oid when the section comes to it.
-/

namespace Catena.Grpc

open Store Rpc Framework Framework.Completion

variable {i : Controller}

namespace UpdateSubscriptions

/-- A subscribed oid that has been looked up, with what its section has found. -/
structure Looked (slot : Nat) where
  oid : String
  world : World
  device : ServedDevice
  served : world.devices slot = some device

def Looked.section {slot : Nat} (e : Looked slot) : Action × World := (.look, e.world)

def Looked.message {slot : Nat} (authz : Authorizer) (e : Looked slot) : Option ComponentParam :=
  (listing e.device.device e.device.values authz .kAuthzDisabled e.oid).map Listed.res

variable (cfg : Config) (q : Received UpdateSubscriptionsPayload) (authz : Authorizer)

/-- The changes to the subscriptions, in their order. -/
def updates : List Action :=
  q.message.addedOids.map (Action.addSubscription q.message.slot · authz) ++
    q.message.removedOids.map (Action.removeSubscription q.message.slot)

/-- The sections of an update and its messages, with the oids that are still to be looked up. -/
inductive Lists (seen : List (Action × World)) (ms : List ComponentParam)
    (rest : List String) : Prop
  | intro (exp : Nat) (checked : World) (updated : List (Action × World)) (started : World)
      (d d' : ServedDevice) (looked : List (Looked q.message.slot))
      (client : cfg.authorizer q.authorization = .ok (authz, exp))
      (found : checked.devices q.message.slot = some d) (enabled : d.subscriptions = true)
      (update : updated.map Prod.fst = updates q authz)
      (served : started.devices q.message.slot = some d')
      (sections : seen =
        (.look, checked) :: updated ++ (.look, started) :: looked.map Looked.section)
      (subscribed : started.getAllSubscribedOids d' = looked.map Looked.oid ++ rest)
      (messages : ms = looked.filterMap (Looked.message authz))

def Posted (seen : List (Action × World)) (posted : List (Op grpc .updateSubscriptions)) : Prop :=
  Streamed .updateSubscriptions .OK (fun rc => rc.code ≠ 0)
    (fun ms all => ∃ rest, Lists cfg q authz seen ms rest ∧ (all = true → rest = [])) posted

def Stands (x : UpdateSubscriptions) (seen : List (Action × World))
    (posted : List (Op grpc .updateSubscriptions)) : Prop :=
  match x.status with
  | .kCreate => seen = [] ∧ posted = []
  | .kProcess => seen = [] ∧ posted = trace [] none
  | .kRead | .kPostWrite => False
  | .kWrite => ∃ ms, posted = trace ms none ∧ Lists cfg q x.authz seen ms x.it
  | .kFinish => Posted cfg q x.authz seen posted

variable {cfg q authz} {seen : List (Action × World)} {ms : List ComponentParam}

theorem Lists.look {oid : String} {rest : List String} {w : World} {d : ServedDevice}
    (h : Lists cfg q authz seen ms (oid :: rest)) (hd : w.devices q.message.slot = some d) :
    Lists cfg q authz (seen ++ [(.look, w)]) (ms ++
      ((listing d.device d.values authz .kAuthzDisabled oid).map Listed.res).toList) rest := by
  obtain ⟨exp, checked, updated, started, d₁, d₂, looked, client, found, enabled, update, served,
    rfl, subscribed, rfl⟩ := h
  refine ⟨exp, checked, updated, started, d₁, d₂, looked ++ [⟨oid, w, d, hd⟩], client, found,
    enabled, update, served, ?_, ?_, ?_⟩
  · rw [List.map_append, List.append_assoc]
    rfl
  · rw [subscribed, List.map_append, List.append_assoc]
    rfl
  · rw [List.filterMap_append, List.filterMap_cons, List.filterMap_nil]
    congr 1

/-- The induction is on the oids that are left; the loop leaves the turn at the first that is
listed. -/
theorem keeps_write {x y : UpdateSubscriptions} (hx : x.status = .kWrite) {it : List String}
    (h : Lists cfg q x.authz seen ms it) :
    (write q.message.slot x it).Keeps (Stands cfg q) y seen (trace ms none) := by
  induction it generalizing seen with
  | nil =>
    have hposted : Posted cfg q x.authz seen (trace ms (some .OK)) :=
      Streamed.complete (i := .updateSubscriptions) ms ⟨[], h, fun _ => rfl⟩
    rw [← trace_finish] at hposted
    exact hposted
  | cons oid it ih =>
    apply keeps_withDevice
    intro w d hd
    have hlook := h.look hd
    cases hlisted : listing d.device d.values x.authz .kAuthzDisabled oid with
    | none =>
      rw [hlisted, Option.map_none, Option.toList_none, List.append_nil] at hlook
      exact ih hlook
    | some listed =>
      rw [hlisted] at hlook
      simp only [Option.elim, Code.Keeps, Stands, hx]
      exact ⟨_, trace_write (I := grpc) (i := .updateSubscriptions) ms listed.res, hlook⟩

theorem keeps_refuse {rc : Status} (hrc : rc.code ≠ 0) (x y : UpdateSubscriptions) :
    (x.finish rc).Keeps (Stands cfg q) y seen (trace [] none) := by
  have hposted : Posted cfg q x.authz seen (trace [] (some rc)) :=
    Streamed.refused (i := .updateSubscriptions) rc hrc
  exact hposted

theorem keeps_process (x : UpdateSubscriptions) :
    (process cfg q x).Keeps (Stands cfg q) x [] (trace [] none) := by
  apply keeps_attempt
  · intro rc hrc
    exact keeps_refuse (Status.code_ofRc_ne_zero (Config.checkSlot_error hrc)) x x
  · intro _ _
    apply keeps_withDevice
    intro checked d found
    split
    · exact keeps_refuse (by decide) x x
    · rename_i enabled
      apply keeps_attempt
      · intro rc hrc
        exact keeps_refuse (Status.code_ofRc_ne_zero (Config.authorizer_error hrc)) x x
      · intro decoded hdecoded
        apply keeps_addSubscriptions
        · exact fun ws rc hrc => keeps_refuse hrc _ x
        · intro added hadded
          apply keeps_removeSubscriptions
          intro removed hremoved
          apply keeps_withDevice
          intro started d' served
          refine keeps_write (x := { x with status := .kWrite, authz := decoded.1, it := _ }) rfl ?_
          refine ⟨decoded.2, checked, added ++ removed, started, d, d', [], hdecoded, found, ?_, ?_,
            served, ?_, rfl, rfl⟩
          · simpa using enabled
          · rw [List.map_append, hadded, hremoved]
            rfl
          · simp

end UpdateSubscriptions

def UpdatesStreamed (cfg : Config) : Relation grpc
  | .updateSubscriptions, q, x, seen, posted => UpdateSubscriptions.Stands cfg q x seen posted
  | _, _, _, _, _ => True

open UpdateSubscriptions in
theorem keeps_updatesStreamed (cfg : Config) (i : Controller) :
    Keeps (server cfg) phase (UpdatesStreamed cfg) i := by
  cases i with
  | updateSubscriptions =>
    refine keeps_stream (i := .updateSubscriptions) status enter illegalState (process cfg)
      (fun q x => write q.message.slot x x.it) (fun _ x => x.finish .OK) (fun _ => rfl)
      (fun _ _ _ => rfl) rfl ⟨rfl, rfl⟩ ?_ ?_ ?_ ?_ ?_
    · intro q q' x ws hx h
      have hstands : Stands cfg q x ws (trace [] none) := h
      rw [Stands, hx] at hstands
      obtain ⟨rfl, _⟩ := hstands
      exact ⟨Streamed.waiting (i := .updateSubscriptions), keeps_process x⟩
    · intro q x ws ops hx h
      have hstands : Stands cfg q x ws ops := h
      rw [Stands, hx] at hstands
      exact hstands
    · intro q x ws ops hx h
      have hstands : Stands cfg q x ws ops := h
      rw [Stands, hx] at hstands
      obtain ⟨ms, rfl, hlists⟩ := hstands
      refine ⟨Streamed.sending (i := .updateSubscriptions) ms ⟨_, hlists, fun h => by cases h⟩, ?_⟩
      exact keeps_write hx hlists
    · intro q x ws ops hx h
      have hstands : Stands cfg q x ws ops := h
      rw [Stands, hx] at hstands
      exact hstands.elim
    · intro q x ws ops hx h
      have hstands : Stands cfg q x ws ops := h
      rw [Stands, hx] at hstands
      exact hstands
  | _ => exact keeps_of_forall fun _ _ _ _ => trivial

/-- What an update has posted, and what its sections have found: the devices that have been there
from the beginning of the run. -/
def UpdatesPosted (cfg : Config) (world : World) : Relation grpc
  | .updateSubscriptions, q, x, seen, posted =>
      UpdateSubscriptions.Posted cfg q x.authz seen posted ∧
        ∀ e ∈ seen, e.2.devices = world.devices
  | _, _, _, _, _ => True

theorem UpdateSubscriptions.Stands.posted {cfg : Config}
    {q : Received UpdateSubscriptionsPayload} {x : UpdateSubscriptions}
    {seen : List (Action × World)} {posted : List (Op grpc .updateSubscriptions)}
    (h : Stands cfg q x seen posted) : Posted cfg q x.authz seen posted := by
  rw [Stands] at h
  cases hx : x.status with
  | kCreate =>
    rw [hx] at h
    rw [h.2]
    exact Streamed.created (i := .updateSubscriptions)
  | kProcess =>
    rw [hx] at h
    rw [h.2]
    exact Streamed.waiting (i := .updateSubscriptions)
  | kRead | kPostWrite =>
    rw [hx] at h
    exact h.elim
  | kWrite =>
    rw [hx] at h
    obtain ⟨ms, rfl, hlists⟩ := h
    exact Streamed.sending (i := .updateSubscriptions) ms ⟨_, hlists, fun h => by cases h⟩
  | kFinish =>
    rw [hx] at h
    exact h

theorem UpdatesPosted.of_streamed {cfg : Config} {world : World} {q : i.Request} {x : i.State}
    {seen : List (Action × World)} {posted : List (Op grpc i)}
    (h : UpdatesStreamed cfg i q x seen posted)
    (hseen : ∀ e ∈ seen, e.2.devices = world.devices) :
    UpdatesPosted cfg world i q x seen posted := by
  cases i with
  | updateSubscriptions => exact ⟨UpdateSubscriptions.Stands.posted h, hseen⟩
  | _ => exact trivial

section Example

def updatePanel : (i : Controller) → i.Request
  | .updateSubscriptions => ⟨⟨1, ["/mute", "/gain"], ["/lost"]⟩, none⟩
  | i => blank i

def updateMute : (i : Controller) → i.Request
  | .updateSubscriptions => ⟨⟨1, [], ["/mute"]⟩, none⟩
  | i => blank i

/-- A client subscribes to both parameters. When it is about to be sent the first, another client
removes the second, which the first client is sent all the same. -/
def updateRun : List (Event grpc) :=
  [.run 11 0, .run 11 0, .complete 11 0 true updatePanel] ++ List.replicate 9 (.run 11 0) ++
    [.run 12 0, .run 12 0, .complete 12 0 true updateMute] ++ List.replicate 6 (.run 12 0) ++
      .run 11 0 :: .complete 11 0 true blank :: List.replicate 3 (.run 11 0) ++
        [.complete 11 0 true blank, .run 11 0, .run 11 0]

def afterUpdate : Service grpc :=
  (replay (server panelConfig).step updateRun
    ((server panelConfig).start controllers panelWorld)).getD
      ((server panelConfig).start controllers panelWorld)

theorem reaches_afterUpdate : (server panelConfig).Reaches controllers panelWorld afterUpdate :=
  Server.reaches_getD (by decide +kernel)

theorem call_afterUpdate : ∃ c, afterUpdate.calls[11]? = some c ∧ c.threads = [] :=
  Server.exists_idle (by decide +kernel)

end Example

/-- Where only subscriptions change, an update that has not been refused makes its changes in their
order, looks up every oid that is subscribed after that exactly once, and sends for each what the
device lists; it finishes with OK only after the last. -/
theorem updates_posted (cfg : Config) (world : World) {s : Service grpc}
    (h : (server cfg).Reaches controllers world s) (hlog : ∀ e ∈ s.log, e.2.KeepsDevices) :
    ∀ j c, s.calls[j]? = some c → c.threads = [] →
      UpdatesPosted cfg world c.kind c.req c.state ((server cfg).found j s.log world) c.posted := by
  intro j c hc hidle
  have hstreamed :=
    relation_of_found (disciplined cfg) (keeps_updatesStreamed cfg) h hc hidle
  exact UpdatesPosted.of_streamed hstreamed (World.devices_of_found hlog world j)

theorem updates_posted_panel :
    ∃ c, afterUpdate.calls[11]? = some c ∧
      UpdatesPosted panelConfig panelWorld c.kind c.req c.state
        ((server panelConfig).found 11 afterUpdate.log panelWorld) c.posted := by
  obtain ⟨c, hc, hidle⟩ := call_afterUpdate
  exact ⟨c, hc, updates_posted panelConfig panelWorld reaches_afterUpdate
    (Action.keepsDevices_of_all (by decide +kernel)) 11 c hc hidle⟩

end Catena.Grpc
