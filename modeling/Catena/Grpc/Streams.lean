import Catena.Grpc.CallData

/-!
# Controllers that stream

Four controllers write messages before they finish, one in each turn: the components of a device,
an external object, the responses of a command, and the subscribed parameters. An object that has
its last message out is in `kPostWrite`.
-/

namespace Catena.Grpc

open Store Rpc Framework Framework.Completion

variable {i : Controller} (cfg : Config)

def unknownError : Status := ⟨2, "Unknown error"⟩

/-- Go on with a result; an error ends the process. -/
def attempt {α : Type} (fail : Status → Code grpc i) (r : Except ExceptionWithStatus α)
    (rest : α → Code grpc i) : Code grpc i :=
  match r with
  | .error rc => fail (.ofRc rc)
  | .ok a => rest a

/-- What follows from what `addSubscription` comes to. Its status is suppressed, an exception is
not. -/
def afterAdding (fail : Status → Code grpc i) (rest : Code grpc i) :
    Except Stop (ExceptionWithStatus × SubscriptionManager) → Code grpc i
  | .error (.threw (.withStatus why)) => fail (.ofRc why)
  | .error (.threw .outOfRange) => fail unknownError
  | .error .outOfFuel => .abort
  | .ok _ => rest

def addSubscriptions (slot : Nat) (authz : Authorizer) (fail : Status → Code grpc i)
    (rest : Code grpc i) : List String → Code grpc i
  | [] => rest
  | oid :: oids =>
      withDevice (.addSubscription slot oid authz) slot fun w d =>
        afterAdding fail (addSubscriptions slot authz fail rest oids)
          (w.subscriptions.addSubscription oid d.device d.values authz)

def removeSubscriptions (slot : Nat) (rest : Code grpc i) : List String → Code grpc i
  | [] => rest
  | oid :: oids =>
      .locked (.removeSubscription slot oid) fun _ => removeSubscriptions slot rest oids

/-- The elements of a `std::set`, from the least on. -/
def inOrder (oids : Finset String) : List String :=
  Quot.liftOn oids.val (List.insertionSort (· ≤ ·)) fun as bs h =>
    have hperm := (as.perm_insertionSort (· ≤ ·)).trans (h.trans (bs.perm_insertionSort _).symm)
    hperm.eq_of_pairwise (fun _ _ _ _ => le_antisymm) (as.pairwise_insertionSort (· ≤ ·))
      (bs.pairwise_insertionSort (· ≤ ·))

/-- `getAllSubscribedOids`. -/
def World.getAllSubscribedOids (w : World) (d : ServedDevice) : List String :=
  inOrder (w.subscriptions.subscriptions d.device.slot)

/-! ## `DeviceRequest` -/

namespace ServedDevice

variable (d : ServedDevice) (authz : Authorizer)

def send (next component : DeviceKey) : Coroutine DeviceKey DeviceKey :=
  .yield component (.ret next)

def sendMenus : DeviceKey → Coroutine DeviceKey DeviceKey :=
  .forEach d.menuGroups.entries fun group =>
    .forEach group.2.menus.entries fun menu => send (.menu group.1 menu.1)

def sendLanguagePacks : DeviceKey → Coroutine DeviceKey DeviceKey :=
  .forEach d.languages.languagePacks.entries fun pack => send (.languagePack pack.1)

def sendConstraints : DeviceKey → Coroutine DeviceKey DeviceKey :=
  .forEach d.constraints.entries fun constraint => send (.sharedConstraint constraint.1)

def sendCommands : DeviceKey → Coroutine DeviceKey DeviceKey :=
  .forEach d.commandItems fun command component =>
    if authz.readAuthz command.2.descriptor then send (.command command.1) component
    else .ret component

def sendParams (subscribedOids : List String) (dl : DetailLevel) :
    DeviceKey → Coroutine DeviceKey DeviceKey :=
  .forEach d.paramItems fun param component =>
    if authz.readAuthz param.2.descriptor ∧ (dl = .full ∨
        param.2.descriptor.info.minimalSet = true ∨
        (dl = .subscriptions ∧ ("/" ++ param.1) ∈ subscribedOids)) then
      send (.param param.1) component
    else .ret component

/-- `Device::getDeviceSerializer`, with what each component is about. -/
def getDeviceSerializer (subscribedOids : List String) (dl : DetailLevel) :
    Coroutine DeviceKey DeviceKey :=
  let component := DeviceKey.header
  if dl ≠ .none then
    ((if dl = .full then ((d.sendMenus component).bind d.sendLanguagePacks).bind d.sendConstraints
      else .ret component).bind fun component =>
    if dl = .full ∨ dl = .commands then d.sendCommands authz component else .ret component).bind
      fun component =>
        if dl ≠ .commands then d.sendParams authz subscribedOids dl component else .ret component
  else .ret component

/-- `Device::getComponentSerializer`. -/
def getComponentSerializer (subscribedOids : List String) (dl : DetailLevel) :
    Except ExceptionWithStatus (Coroutine.Handle DeviceKey) :=
  if dl = .subscriptions ∧ d.subscriptions = false then
    .error ⟨"Subscriptions are not enabled for this device", .invalidArgument⟩
  else .ok ⟨some (d.getDeviceSerializer authz subscribedOids dl), .moved⟩

/-- The component that the serializer fills in. -/
def component : DeviceKey → DeviceComponent
  | .moved => .kindNotSet
  | .header => .device d.header
  | .menu group name =>
      ((d.menuGroups.lookup group).bind (·.menus.lookup name)).elim .kindNotSet fun menu =>
        .menu (group ++ "/" ++ name) menu.toProto
  | .languagePack language =>
      (d.languages.pack language).elim .kindNotSet fun pack =>
        .languagePack ⟨language, pack.toProto {}⟩
  | .sharedConstraint name =>
      (d.constraints.lookup name).elim .kindNotSet fun constraint =>
        .sharedConstraint name (constraint.1.toProto constraint.2)
  | .command name =>
      (d.commandItems.lookup name).elim .kindNotSet fun command =>
        .command name (paramMessage authz command)
  | .param name =>
      (d.paramItems.lookup name).elim .kindNotSet fun param =>
        .param ⟨name, paramMessage authz param⟩

end ServedDevice

namespace DeviceRequest

def enter (x : DeviceRequest) (status : CallStatus) : DeviceRequest := { x with status }

def finish (x : DeviceRequest) (rc : Status) : Code grpc .deviceRequest := Grpc.finish x.enter rc

/-- `kWrite`: the next component, taken out under the mutex of the device. -/
def write (slot : Nat) (x : DeviceRequest) : Code grpc .deviceRequest :=
  match x.serializer with
  | none => x.finish ⟨13, "Illegal state"⟩
  | some serializer =>
      withDevice .look slot fun _ d =>
        let next := serializer.getNext .moved
        let status := if next.2.hasMore then .kWrite else .kPostWrite
        .set { x with status, serializer := some next.2 }
          (.post (.write (d.component x.authz next.1)) .done)

/-- Make the serializer and write the first component. -/
def start (slot : Nat) (dl : DetailLevel) (x : DeviceRequest) (subscribedOids : List String) :
    Code grpc .deviceRequest :=
  withDevice .look slot fun _ d =>
    attempt x.finish (d.getComponentSerializer x.authz subscribedOids dl) fun serializer =>
      let x := { x with status := .kWrite, serializer := some serializer }
      .set x (write slot x)

/-- `kProcess`. -/
def process (q : Received DeviceRequestPayload) (x : DeviceRequest) : Code grpc .deviceRequest :=
  let slot := q.message.slot
  attempt x.finish (cfg.checkSlot slot) fun _ =>
    attempt x.finish (cfg.authorizer q.authorization) fun decoded =>
      let x := { x with authz := decoded.1 }
      if q.message.detailLevel = .subscriptions then
        addSubscriptions slot x.authz x.finish
          (withDevice .look slot fun w d =>
            start slot q.message.detailLevel x (w.getAllSubscribedOids d)) q.message.subscribedOids
      else start slot q.message.detailLevel x []

def proceed (q : Received DeviceRequestPayload) (x : DeviceRequest) (ok : Bool) :
    Code grpc .deviceRequest :=
  turn x.enter x.status ok illegalState (process cfg q x) (write q.message.slot x)
    (x.finish .OK)

end DeviceRequest

/-! ## `ExternalObjectRequest` -/

namespace ExternalObjectRequest

/-- The error for a file that does not exist. It begins with the name of the function. -/
def notFound (oid : String) : Status :=
  let why := "virtual void catena::gRPC::ExternalObjectRequest::proceed(bool)\nfile '" ++ oid ++
    "' not found"
  if startsWith oid "/" then ⟨5, why⟩
  else ⟨5, why ++ ". HINT: Make sure oid starts with '/' prefix."⟩

/-- `kWrite`: the file is looked for, and then read and sent in one message. An exception without a
status cancels the call. -/
def write (q : Received OidPayload) : Code grpc .externalObjectRequest :=
  let slot := q.message.slot
  let fail := Grpc.finish (i := .externalObjectRequest) id
  if 65535 < slot then fail (.ofRc ⟨"slot number out of range", .invalidArgument⟩)
  else if slot ∉ cfg.slots then
    fail (.ofRc ⟨"Device not found in slot " ++ toString slot, .notFound⟩)
  else
    let path := cfg.EOPath ++ q.message.oid
    .locked .look fun w =>
      match (w.files path).fileExists with
      | none => fail .CANCELLED
      | some false => fail (notFound q.message.oid)
      | some true =>
          .locked .look fun w =>
            (w.files path).read.elim (fail .CANCELLED) fun data =>
              .set CallStatus.kPostWrite (.post (.write ⟨data, cfg.sha256 data⟩) .done)

def proceed (q : Received OidPayload) (x : CallStatus) (ok : Bool) :
    Code grpc .externalObjectRequest :=
  turn id x ok illegalState (.set CallStatus.kWrite (write cfg q)) (write cfg q)
    (Grpc.finish id .OK)

end ExternalObjectRequest

/-! ## `ExecuteCommand` -/

namespace ServedDevice

/-- `Device::getCommand`. A number that is too large for an index is an exception. -/
def getCommand (d : ServedDevice) (fqoid : String) (authz : Authorizer) :
    Except Thrown (Except ExceptionWithStatus (String × Node)) :=
  match Path.parse fqoid with
  | .error (.withStatus why) => .ok (.error why)
  | .error .outOfRange => .error .outOfRange
  | .ok (.name name :: rest) =>
      match d.commandItems.lookup name with
      | none => .ok (.error ⟨"Command not found: " ++ fqoid, .notFound⟩)
      | some param =>
          if !authz.readAuthz param.descriptor then
            .ok (.error ⟨"Not authorized to read the param " ++ fqoid, .permissionDenied⟩)
          else if rest = [] then .ok (.ok (name, param))
          else .ok (.error ⟨"sub-commands not implemented", .unimplemented⟩)
  | .ok _ => .ok (.error ⟨"Invalid json pointer", .invalidArgument⟩)

end ServedDevice

namespace ExecuteCommand

def enter (x : ExecuteCommand) (status : CallStatus) : ExecuteCommand := { x with status }

def finish (x : ExecuteCommand) (rc : Status) : Code grpc .executeCommand := Grpc.finish x.enter rc

def thrown : Raised → Status
  | some why => .ofRc why.1
  | none => unknownError

/-- `authz_->isExpired()`, and the rest if it is not. -/
def unlessExpired (x : ExecuteCommand) (rest : Code grpc .executeCommand) :
    Code grpc .executeCommand :=
  .locked .look fun w =>
    if x.exp ≠ 0 ∧ x.exp < w.now then
      x.finish (.ofRc ⟨"JWS token expired", .unauthenticated⟩)
    else rest

/-- Resume the responder. Without a response to send, the loop goes on until it has ended. -/
def resume (respond : Bool) (x : ExecuteCommand) : Responder → Code grpc .executeCommand
  | .run effect rest => .locked (.change effect) fun w => resume respond x (rest w)
  | .yield response rest =>
      if respond then
        .set { x with status := .kWrite, responder := some rest } (.post (.write response) .done)
      else unlessExpired x (resume respond x rest)
  | .ret response =>
      if respond then
        .set { x with status := .kPostWrite, responder := none } (.post (.write response) .done)
      else x.finish .OK
  | .throw why => x.finish (thrown why)

/-- `kWrite`. -/
def write (respond : Bool) (x : ExecuteCommand) : Code grpc .executeCommand :=
  match x.responder with
  | none => x.finish ⟨13, "Illegal state"⟩
  | some responder => unlessExpired x (resume respond x responder)

/-- `ParamDescriptor::executeCommand`, and what follows from what it returns. -/
def execute (q : ExecuteCommandPayload) (x : ExecuteCommand) (authz : Authorizer)
    (command : String × Node) : Code grpc .executeCommand :=
  if !authz.writeAuthz command.2.descriptor then
    x.finish (.ofRc ⟨"Not authorized to execute command " ++ command.2.descriptor.getOid,
      .permissionDenied⟩)
  else
    match cfg.commandImpl q.slot command.1 q.value q.respond with
    | .error why => x.finish (thrown why)
    | .ok responder =>
        let x := { x with status := .kWrite, responder }
        .set x (write q.respond x)

/-- `kProcess`. -/
def process (q : Received ExecuteCommandPayload) (x : ExecuteCommand) :
    Code grpc .executeCommand :=
  let slot := q.message.slot
  attempt x.finish (cfg.checkSlot slot) fun _ =>
    attempt x.finish (cfg.authorizer q.authorization) fun decoded =>
      withDevice .look slot fun _ d =>
        match d.getCommand q.message.oid decoded.1 with
        | .error _ => x.finish unknownError
        | .ok found => attempt x.finish found fun command =>
            execute cfg q.message { x with exp := decoded.2 } decoded.1 command

def proceed (q : Received ExecuteCommandPayload) (x : ExecuteCommand) (ok : Bool) :
    Code grpc .executeCommand :=
  turn x.enter x.status ok illegalState (process cfg q x) (write q.message.respond x)
    (x.finish .OK)

end ExecuteCommand

/-! ## `UpdateSubscriptions` -/

namespace UpdateSubscriptions

def enter (x : UpdateSubscriptions) (status : CallStatus) : UpdateSubscriptions :=
  { x with status }

def finish (x : UpdateSubscriptions) (rc : Status) : Code grpc .updateSubscriptions :=
  Grpc.finish x.enter rc

/-- `kWrite`: the loop over the oids from `it_` on, up to the first that is listed. -/
def write (slot : Nat) (x : UpdateSubscriptions) : List String → Code grpc .updateSubscriptions
  | [] => { x with it := [] }.finish .OK
  | oid :: it =>
      withDevice .look slot fun _ d =>
        (listing d.device d.values x.authz .kAuthzDisabled oid).elim (write slot x it) fun listed =>
          .set { x with it } (.post (.write listed.res) .done)

/-- Start with the oids that are subscribed now. -/
def start (slot : Nat) (x : UpdateSubscriptions) : Code grpc .updateSubscriptions :=
  withDevice .look slot fun w d =>
    let x := { x with status := .kWrite, it := w.getAllSubscribedOids d }
    .set x (write slot x x.it)

/-- Change the subscriptions, for a client with an authorizer. -/
def update (q : UpdateSubscriptionsPayload) (x : UpdateSubscriptions) :
    Code grpc .updateSubscriptions :=
  addSubscriptions q.slot x.authz x.finish
    (removeSubscriptions q.slot (start q.slot x) q.removedOids) q.addedOids

/-- `kProcess`. -/
def process (q : Received UpdateSubscriptionsPayload) (x : UpdateSubscriptions) :
    Code grpc .updateSubscriptions :=
  let slot := q.message.slot
  attempt x.finish (cfg.checkSlot slot) fun _ =>
    withDevice .look slot fun _ d =>
      if !d.subscriptions then x.finish ⟨9, "Subscriptions are not enabled for this device"⟩
      else
        attempt x.finish (cfg.authorizer q.authorization) fun decoded =>
          update q.message { x with authz := decoded.1 }

def proceed (q : Received UpdateSubscriptionsPayload) (x : UpdateSubscriptions) (ok : Bool) :
    Code grpc .updateSubscriptions :=
  turn x.enter x.status ok illegalState (process cfg q x) (write q.message.slot x x.it)
    (x.finish .OK)

end UpdateSubscriptions

end Catena.Grpc
