import Catena.Grpc.StreamTurns

/-!
# What a device request sends

A device request makes its serializer in one section and takes a component out of it in each
section after that. The serializer of the model decides in the first section which components there
are, the loops of the source look at the device each time; where nothing but values changes, these
are the same. Each component is of the device as its own section has found it.
-/

namespace Catena.Grpc

open Store Rpc Framework Framework.Completion

variable {i : Controller}

namespace DeviceRequest

/-- A component of a stream, with what its section has found. -/
structure Sent (slot : Nat) where
  key : DeviceKey
  world : World
  device : ServedDevice
  served : world.devices slot = some device

def Sent.section {slot : Nat} (e : Sent slot) : Action × World := (.look, e.world)

def Sent.component {slot : Nat} (authz : Authorizer) (e : Sent slot) : DeviceComponent :=
  e.device.component authz e.key

variable (cfg : Config) (q : Received DeviceRequestPayload) (authz : Authorizer)

/-- The sections before the one in which the serializer is made, and the oids that it is made
with. -/
inductive Subscribes : List (Action × World) → List String → Prop
  | unused (h : q.message.detailLevel ≠ .subscriptions) : Subscribes [] []
  | listed (h : q.message.detailLevel = .subscriptions) (added : List (Action × World))
      (w : World) (d : ServedDevice)
      (actions : added.map Prod.fst =
        q.message.subscribedOids.map (Action.addSubscription q.message.slot · authz))
      (served : w.devices q.message.slot = some d) :
      Subscribes (added ++ [(.look, w)]) (w.getAllSubscribedOids d)

/-- The keys of the serializer that a device makes. -/
def keys (subscribedOids : List String) (d : ServedDevice) : List DeviceKey :=
  (d.getDeviceSerializer authz subscribedOids q.message.detailLevel).values

/-- The sections of a stream and its messages, for an authorizer that the client has been given,
with the keys of the components that are still to be sent. -/
inductive Streams (seen : List (Action × World)) (ms : List DeviceComponent)
    (rest : List DeviceKey) : Prop
  | intro (exp : Nat) (before : List (Action × World)) (subscribedOids : List String)
      (made : World) (d : ServedDevice) (sent : List (Sent q.message.slot))
      (client : cfg.authorizer q.authorization = .ok (authz, exp))
      (subscribed : Subscribes q authz before subscribedOids)
      (served : made.devices q.message.slot = some d)
      (enabled : q.message.detailLevel = .subscriptions → d.subscriptions = true)
      (sections : seen = before ++ (.look, made) :: sent.map Sent.section)
      (serialized : keys q authz subscribedOids d = sent.map Sent.key ++ rest)
      (messages : ms = sent.map (Sent.component authz))

/-- A refusal is a status other than OK, and a stream that is complete has no key left. -/
def Posted (seen : List (Action × World)) (posted : List (Op grpc .deviceRequest)) : Prop :=
  Streamed .deviceRequest .OK (fun rc => rc.code ≠ 0)
    (fun ms all => ∃ rest, Streams cfg q authz seen ms rest ∧ (all = true → rest = [])) posted

/-- Where a device request stands between two turns. -/
def Stands (x : DeviceRequest) (seen : List (Action × World))
    (posted : List (Op grpc .deviceRequest)) : Prop :=
  match x.status with
  | .kCreate => seen = [] ∧ posted = []
  | .kProcess => seen = [] ∧ posted = trace [] none
  | .kRead => False
  | .kWrite => ∃ ms serializer, posted = trace ms none ∧ x.serializer = some serializer ∧
      serializer.hasMore = true ∧ Streams cfg q x.authz seen ms serializer.remaining
  | .kPostWrite => ∃ ms, posted = trace ms none ∧ Streams cfg q x.authz seen ms []
  | .kFinish => Posted cfg q x.authz seen posted

variable {cfg q authz} {seen : List (Action × World)} {ms : List DeviceComponent}
  {rest : List DeviceKey}

theorem Streams.send {key : DeviceKey} {w : World} {d : ServedDevice}
    (h : Streams cfg q authz seen ms (key :: rest)) (hd : w.devices q.message.slot = some d) :
    Streams cfg q authz (seen ++ [(.look, w)]) (ms ++ [d.component authz key]) rest := by
  obtain ⟨exp, before, oids, made, d', sent, client, subscribed, served, enabled, rfl, serialized,
    rfl⟩ := h
  refine ⟨exp, before, oids, made, d', sent ++ [⟨key, w, d, hd⟩], client, subscribed, served,
    enabled, ?_, ?_, ?_⟩
  · rw [List.map_append, List.append_assoc]
    rfl
  · rw [serialized, List.map_append, List.append_assoc]
    rfl
  · rw [List.map_append]
    rfl

theorem keeps_write {x : DeviceRequest} {serializer : Coroutine.Handle DeviceKey}
    (hx : x.serializer = some serializer) (hmore : serializer.hasMore = true)
    (h : Streams cfg q x.authz seen ms serializer.remaining) :
    (write q.message.slot x).Keeps (Stands cfg q) x seen (trace ms none) := by
  unfold write
  rw [hx]
  apply keeps_withDevice
  intro w d hd
  rw [serializer.remaining_of_hasMore .moved hmore] at h
  have hsent := h.send hd
  have hposted := trace_write (I := grpc) (i := .deviceRequest) ms
    (d.component x.authz (serializer.getNext .moved).1)
  cases hnext : (serializer.getNext .moved).2.hasMore with
  | true =>
    simp only [Code.Keeps, Stands, hnext, if_true]
    exact ⟨_, _, hposted, rfl, hnext, hsent⟩
  | false =>
    rw [Coroutine.Handle.remaining_of_not_hasMore hnext] at hsent
    simp only [Code.Keeps, Stands, hnext, Bool.false_eq_true, if_false]
    exact ⟨_, hposted, hsent⟩

theorem keeps_refuse {rc : Status} (hrc : rc.code ≠ 0) (x y : DeviceRequest) :
    (x.finish rc).Keeps (Stands cfg q) y seen (trace [] none) := by
  have hposted : Posted cfg q x.authz seen (trace [] (some rc)) :=
    Streamed.refused (i := .deviceRequest) rc hrc
  exact hposted

theorem getComponentSerializer_error {d : ServedDevice} {oids : List String} {dl : DetailLevel}
    {rc : ExceptionWithStatus} (h : d.getComponentSerializer authz oids dl = .error rc) :
    rc.isOk = false := by
  rw [ServedDevice.getComponentSerializer] at h
  split at h
  · obtain rfl := Except.error.inj h
    rfl
  · cases h

/-- The first component is sent by the turn that makes the serializer. -/
theorem keeps_start {x y : DeviceRequest} {exp : Nat} {subscribedOids : List String}
    (client : cfg.authorizer q.authorization = .ok (x.authz, exp))
    (hseen : Subscribes q x.authz seen subscribedOids) :
    (start q.message.slot q.message.detailLevel x subscribedOids).Keeps (Stands cfg q) y seen
      (trace [] none) := by
  apply keeps_withDevice
  intro w d hd
  apply keeps_attempt
  · intro rc hrc
    exact keeps_refuse (Status.code_ofRc_ne_zero (getComponentSerializer_error hrc)) x y
  · intro serializer hserializer
    rw [ServedDevice.getComponentSerializer] at hserializer
    split at hserializer
    · cases hserializer
    · rename_i henabled
      obtain rfl := Except.ok.inj hserializer
      refine keeps_write (x := { x with status := .kWrite, serializer := some _ }) rfl rfl ?_
      refine ⟨exp, seen, subscribedOids, w, d, [], client, hseen, hd, ?_, rfl, rfl, rfl⟩
      intro hdl
      by_contra hoff
      exact henabled ⟨hdl, Bool.eq_false_iff.mpr hoff⟩

theorem keeps_process (x : DeviceRequest) :
    (process cfg q x).Keeps (Stands cfg q) x [] (trace [] none) := by
  apply keeps_attempt
  · intro rc hrc
    exact keeps_refuse (Status.code_ofRc_ne_zero (Config.checkSlot_error hrc)) x x
  · intro _ _
    apply keeps_attempt
    · intro rc hrc
      exact keeps_refuse (Status.code_ofRc_ne_zero (Config.authorizer_error hrc)) x x
    · intro decoded hdecoded
      dsimp only
      split
      · rename_i hdl
        apply keeps_addSubscriptions
        · exact fun ws rc hrc => keeps_refuse hrc _ x
        · intro ws hws
          apply keeps_withDevice
          intro w d hd
          exact keeps_start (x := { x with authz := decoded.1 }) hdecoded
            (.listed hdl ws w d hws hd)
      · rename_i hdl
        exact keeps_start (x := { x with authz := decoded.1 }) hdecoded (.unused hdl)

end DeviceRequest

/-- The device requests stand where their states say. -/
def DevicesStreamed (cfg : Config) : Relation grpc
  | .deviceRequest, q, x, seen, posted => DeviceRequest.Stands cfg q x seen posted
  | _, _, _, _, _ => True

open DeviceRequest in
theorem keeps_devicesStreamed (cfg : Config) (i : Controller) :
    Keeps (server cfg) phase (DevicesStreamed cfg) i := by
  cases i with
  | deviceRequest =>
    refine keeps_stream (i := .deviceRequest) status enter illegalState (process cfg)
      (fun q x => write q.message.slot x) (fun _ x => x.finish .OK) (fun _ => rfl)
      (fun _ _ _ => rfl) rfl ⟨rfl, rfl⟩ ?_ ?_ ?_ ?_ ?_
    · intro q q' x ws hx h
      have hstands : Stands cfg q x ws (trace [] none) := h
      rw [Stands, hx] at hstands
      obtain ⟨rfl, _⟩ := hstands
      exact ⟨Streamed.waiting (i := .deviceRequest), keeps_process x⟩
    · intro q x ws ops hx h
      have hstands : Stands cfg q x ws ops := h
      rw [Stands, hx] at hstands
      exact hstands
    · intro q x ws ops hx h
      have hstands : Stands cfg q x ws ops := h
      rw [Stands, hx] at hstands
      obtain ⟨ms, serializer, rfl, hserializer, hmore, hstreams⟩ := hstands
      refine ⟨Streamed.sending (i := .deviceRequest) ms ⟨_, hstreams, fun h => by cases h⟩, ?_⟩
      exact keeps_write hserializer hmore hstreams
    · intro q x ws ops hx h
      have hstands : Stands cfg q x ws ops := h
      rw [Stands, hx] at hstands
      obtain ⟨ms, rfl, hstreams⟩ := hstands
      refine ⟨Streamed.sending (i := .deviceRequest) ms ⟨_, hstreams, fun h => by cases h⟩, ?_⟩
      have hposted : Posted cfg q x.authz ws (trace ms (some .OK)) :=
        Streamed.complete (i := .deviceRequest) ms ⟨[], hstreams, fun _ => rfl⟩
      rw [← trace_finish] at hposted
      exact hposted
    · intro q x ws ops hx h
      have hstands : Stands cfg q x ws ops := h
      rw [Stands, hx] at hstands
      exact hstands
  | _ => exact keeps_of_forall fun _ _ _ _ => trivial

namespace DeviceRequest

/-- In every section the device has the components that it had at the beginning of the run. -/
def SameKeys (q : Received DeviceRequestPayload) (authz : Authorizer) (world : World)
    (seen : List (Action × World)) : Prop :=
  ∀ e ∈ seen, ∀ d, e.2.devices q.message.slot = some d →
    ∃ d₀, world.devices q.message.slot = some d₀ ∧
      ∀ subscribedOids, keys q authz subscribedOids d = keys q authz subscribedOids d₀

/-- A loop over parameters that does not look at their values. -/
theorem forEach_collection {describe : Descriptor → Ty → ParamDescriptor} {fields : Fields}
    (values values' : fields.Vals) {body : String × Node → DeviceKey → Coroutine DeviceKey DeviceKey}
    (hbody : ∀ name ty pd x x', body (name, ⟨ty, pd, x⟩) = body (name, ⟨ty, pd, x'⟩)) :
    Coroutine.forEach (collection describe fields values) body =
      Coroutine.forEach (collection describe fields values') body := by
  induction fields using Fields.list_induction with
  | nil => rfl
  | cons name info ty rest ih =>
    obtain ⟨x, xs⟩ := values
    obtain ⟨x', xs'⟩ := values'
    funext component
    change (body (name, ⟨ty, describe info ty, x⟩) component).bind _ =
      (body (name, ⟨ty, describe info ty, x'⟩) component).bind _
    rw [hbody name ty (describe info ty) x x', ih xs xs']

theorem keys_revalue (q : Received DeviceRequestPayload) (authz : Authorizer)
    (subscribedOids : List String) (d : ServedDevice) (values : d.device.State) :
    keys q authz subscribedOids (d.revalue values) = keys q authz subscribedOids d := by
  have hparams : (d.revalue values).sendParams authz subscribedOids q.message.detailLevel =
      d.sendParams authz subscribedOids q.message.detailLevel :=
    forEach_collection values d.values fun _ _ _ _ _ => rfl
  simp only [keys, ServedDevice.getDeviceSerializer, hparams]
  rfl

theorem sameKeys_of_revalues {q : Received DeviceRequestPayload} {authz : Authorizer}
    {world : World} {seen : List (Action × World)} (h : ∀ e ∈ seen, world.Revalues e.2) :
    SameKeys q authz world seen := by
  intro e he d hd
  obtain ⟨d₀, values, hd₀, rfl⟩ := h e he _ d hd
  exact ⟨d₀, hd₀, fun oids => keys_revalue q authz oids d₀ values⟩

end DeviceRequest

/-- What a device request has posted, and what its sections have found. -/
def DevicesPosted (cfg : Config) (world : World) : Relation grpc
  | .deviceRequest, q, x, seen, posted =>
      DeviceRequest.Posted cfg q x.authz seen posted ∧
        DeviceRequest.SameKeys q x.authz world seen
  | _, _, _, _, _ => True

namespace DeviceRequest

theorem Stands.posted {cfg : Config} {q : Received DeviceRequestPayload} {x : DeviceRequest}
    {seen : List (Action × World)} {posted : List (Op grpc .deviceRequest)}
    (h : Stands cfg q x seen posted) : Posted cfg q x.authz seen posted := by
  rw [Stands] at h
  cases hx : x.status with
  | kCreate =>
    rw [hx] at h
    rw [h.2]
    exact Streamed.created (i := .deviceRequest)
  | kProcess =>
    rw [hx] at h
    rw [h.2]
    exact Streamed.waiting (i := .deviceRequest)
  | kRead =>
    rw [hx] at h
    exact h.elim
  | kWrite =>
    rw [hx] at h
    obtain ⟨ms, serializer, rfl, _, _, hstreams⟩ := h
    exact Streamed.sending (i := .deviceRequest) ms ⟨_, hstreams, fun h => by cases h⟩
  | kPostWrite =>
    rw [hx] at h
    obtain ⟨ms, rfl, hstreams⟩ := h
    exact Streamed.sending (i := .deviceRequest) ms ⟨_, hstreams, fun h => by cases h⟩
  | kFinish =>
    rw [hx] at h
    exact h

end DeviceRequest

theorem DevicesPosted.of_streamed {cfg : Config} {world : World} {q : i.Request} {x : i.State}
    {seen : List (Action × World)} {posted : List (Op grpc i)}
    (h : DevicesStreamed cfg i q x seen posted) (hseen : ∀ e ∈ seen, world.Revalues e.2) :
    DevicesPosted cfg world i q x seen posted := by
  cases i with
  | deviceRequest =>
    exact ⟨DeviceRequest.Stands.posted h, DeviceRequest.sameKeys_of_revalues hseen⟩
  | _ => exact trivial

section Example

def wholePanel : (i : Controller) → i.Request
  | .deviceRequest => ⟨⟨1, .full, []⟩, none⟩
  | i => blank i

/-- A client asks for the panel and gets its first component. Then another call takes its turns,
and after that the client gets the other four components and the status. -/
def panelRun (between : List (Event grpc)) : List (Event grpc) :=
  [.run 4 0, .run 4 0, .complete 4 0 true wholePanel] ++ List.replicate 6 (.run 4 0) ++ between ++
    (List.replicate 4 (.complete 4 0 true blank :: List.replicate 3 (.run 4 0))).flatten ++
      [.complete 4 0 true blank, .run 4 0, .run 4 0]

def gainTurns (call : Nat) : List (Event grpc) :=
  [.run call 0, .run call 0, .complete call 0 true gainRequest] ++ List.replicate 4 (.run call 0)

/-- The service after a run in which the gain is set or read. -/
def afterPanel (call : Nat) : Service grpc :=
  let start := (server panelConfig).start controllers panelWorld
  (replay (server panelConfig).step (panelRun (gainTurns call)) start).getD start

theorem reaches_afterPanel_set :
    (server panelConfig).Reaches controllers panelWorld (afterPanel 2) :=
  ⟨panelRun (gainTurns 2), rfl⟩

end Example

/-- Where nothing but values changes, a device request that has not been refused sends the
components of its device in their order, each as its own section has found it, and finishes with OK
only after all of them. -/
theorem devices_posted (cfg : Config) (world : World) {s : Service grpc}
    (h : (server cfg).Reaches controllers world s) (hlog : ∀ e ∈ s.log, e.2.KeepsItems) :
    ∀ j c, s.calls[j]? = some c → c.threads = [] →
      DevicesPosted cfg world c.kind c.req c.state ((server cfg).found j s.log world) c.posted := by
  intro j c hc hidle
  have hstreamed :=
    relation_of_found (disciplined cfg) (keeps_devicesStreamed cfg) h hc hidle
  exact DevicesPosted.of_streamed hstreamed (World.revalues_of_found hlog world j)

theorem devices_posted_panel :
    ∃ c, (afterPanel 2).calls[4]? = some c ∧
      DevicesPosted panelConfig panelWorld c.kind c.req c.state
        ((server panelConfig).found 4 (afterPanel 2).log panelWorld) c.posted :=
  ⟨_, rfl, devices_posted panelConfig panelWorld reaches_afterPanel_set
    (Action.keepsItems_of_all rfl) 4 _ rfl rfl⟩

end Catena.Grpc
