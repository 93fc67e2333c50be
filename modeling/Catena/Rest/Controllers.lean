import Catena.Framework.Handlers
import Catena.Grpc.Streams
import Catena.Rest.Writer

/-!
# The controllers of the REST service

A controller is made for one request, on the thread of its connection, and does all its work in one
call. Six of them answer once; the others write their messages one after the other. Reading from a
device without its mutex is one section.
-/

namespace Catena.Rest

open Store Rpc Grpc Framework

/-- The members of the `SocketReader` that a controller is made with. -/
abbrev Request : Type := SocketReader.Request

abbrev Code : Type := Handlers.Code World Action Text

/-- The configuration of a service. The JSON parsers are `none` where they fail, and `others` are
the controllers for connections, assets and parameter infos. -/
structure Config extends Grpc.Config where
  version : Text
  urlView : Text → Option (Text × List (Text × Text))
  print : Printer
  parseValue : Text → Option Value
  parseValues : Text → Option (List SetValuePayload)
  parseLanguagePack : Text → Option LanguagePackMessage
  parseUpdates : Text → Option (List String × List String)
  others : Request → Code

namespace Config

variable (cfg : Config)

/-- `Authorizer(context_.jwsToken())`, or the object that disables authorization. -/
def readToken (r : Request) : Except ExceptionWithStatus (Authorizer × Nat) :=
  if cfg.authorizationEnabled then
    match cfg.decode (String.ofList r.jwsToken) with
    | some decoded => .ok decoded
    | none => .error ⟨"Invalid JWS Token", .unauthenticated⟩
  else .ok (.kAuthzDisabled, 0)

end Config

/-- `context_.slot()` as a key of `dms_`. -/
def slotOf (r : Request) : Nat := r.slot.toNat

def fqoidOf (r : Request) : String := String.ofList r.fqoid

variable (cfg : Config)

/-- `writer_.sendResponse(rc, msg)`. -/
def send (rc : StatusCode) (msg : Message) (writer : Writer) (rest : Writer → Code) : Code :=
  let sent := writer.sendResponse cfg.print rc msg
  .write sent.1 (rest sent.2)

def finish (rc : StatusCode) (msg : Message) (writer : Writer) : Code :=
  send cfg rc msg writer fun _ => .done

/-- The writer of a controller that answers once. -/
def unaryWriter (r : Request) : Writer := .socket { origin := r.origin }

/-! ## Controllers that answer once -/

/-- The status and the message of a response. -/
abbrev Answer : Type := StatusCode × Message

/-- How a request is processed: by an answer at once, or in a section whose answer is read off the
world, `none` if a null pointer is dereferenced. -/
inductive Task where
  | respond (answer : Answer)
  | inSection (a : Action) (answer : World → Option Answer)

namespace Task

def code (writer : Writer) : Task → Code
  | .respond answer => finish cfg answer.1 answer.2 writer
  | .inSection a answer =>
      .locked a fun w => (answer w).elim .abort fun r => finish cfg r.1 r.2 writer

/-- An exception, after which `ans` is as it was. -/
def refuse (ans : Message) (rc : ExceptionWithStatus) : Task := .respond (.ofRc rc, ans)

def attempt {α : Type} (ans : Message) (r : Except ExceptionWithStatus α) (rest : α → Task) :
    Task :=
  match r with
  | .error rc => refuse ans rc
  | .ok a => rest a

def authorized (ans : Message) (r : Request) (rest : Authorizer → Task) : Task :=
  attempt ans (cfg.checkSlot (slotOf r)) fun _ =>
    attempt ans (cfg.readToken r) fun decoded => rest decoded.1

end Task

def GetPopulatedSlots.task : Task := .respond (.ok, .slotList cfg.slots)

def GetValue.task (r : Request) : Task :=
  .authorized cfg (.value .kindNotSet) r fun authz =>
    .inSection .look fun w => (w.devices (slotOf r)).map fun d =>
      let read := d.device.getValue d.values (fqoidOf r) .kindNotSet authz
      (.ofRc read.1, .value read.2)

/-- The answer of `MultiSetValue::proceed` to what has become of the call. -/
def MultiSetValue.answer {σ : Type} : CallResult σ → Option Answer
  | .returned rc _ => some (.ofRc rc, .empty)
  | .threw (.withStatus why) _ => some (.ofRc why, .empty)
  | .threw .outOfRange _ => some (.unknown, .empty)
  | .nullDereference _ => none

/-- `MultiSetValue::proceed`, with what `toMulti_` makes of the body of the request. -/
def MultiSetValue.proceed (r : Request) (toMulti : Option (List SetValuePayload)) : Task :=
  .attempt .empty (cfg.checkSlot (slotOf r)) fun _ =>
    match toMulti with
    | none => .respond (.invalidArgument, .empty)
    | some values =>
        .attempt .empty (cfg.readToken r) fun decoded =>
          .inSection (.write (slotOf r) (.multiSetValue values decoded.1)) fun w =>
            (w.devices (slotOf r)).bind fun d =>
              MultiSetValue.answer (d.device.multiSetValue d.values values decoded.1)

def MultiSetValue.task (r : Request) : Task :=
  MultiSetValue.proceed cfg r (cfg.parseValues r.jsonBody)

def SetValue.task (r : Request) : Task :=
  MultiSetValue.proceed cfg r ((cfg.parseValue r.jsonBody).map fun value => [⟨fqoidOf r, value⟩])

def GetParam.task (r : Request) : Task :=
  let ans : ComponentParam := ⟨"", .ofValue .kindNotSet⟩
  .authorized cfg (.componentParam ans) r fun authz =>
    .inSection .look fun w => (w.devices (slotOf r)).map fun d =>
      match d.device.getParamByOid d.values (fqoidOf r) authz with
      | .error rc => (.ofRc rc, .componentParam ans)
      | .ok param =>
          let written := param.toProtoParam authz
          (.ofRc written.1, .componentParam ⟨param.descriptor.getOid, written.2⟩)

def Languages.task (r : Request) : Task :=
  .attempt (.languageList []) (cfg.checkSlot (slotOf r)) fun _ =>
    if r.method = .get then
      .inSection .look fun w => (w.devices (slotOf r)).map fun d =>
        (if d.languageList = [] then .notFound else .ok, .languageList d.languageList)
    else .respond (.unimplemented, .languageList [])

namespace LanguagePack

/-- Only a GET sends `ans`. -/
def message (r : Request) (ans : ComponentLanguagePack) : Message :=
  if r.method = .get then .languagePack ans else .empty

/-- `POST/language-pack` and `PUT/language-pack`. -/
def put (r : Request) (languageId : String) (authz : Authorizer) : Task :=
  match cfg.parseLanguagePack r.jsonBody with
  | none => .respond (.invalidArgument, .empty)
  | some pack =>
      let language : AddLanguagePayload := ⟨languageId, pack⟩
      .inSection (.putLanguage (slotOf r) (r.method = .post) language authz) fun w =>
        (w.devices (slotOf r)).bind fun d =>
          (d.putLanguage (r.method = .post) language authz).map fun put => (.ofRc put.1, .empty)

/-- What is done with the language that the fqoid names. -/
def perform (r : Request) (languageId : String) (authz : Authorizer) : Task :=
  match r.method with
  | .get =>
      .inSection .look fun w => (w.devices (slotOf r)).bind fun d =>
        (d.getLanguagePack languageId).map fun found => (.ofRc found.1, .languagePack found.2)
  | .post | .put => put cfg r languageId authz
  | .delete =>
      .inSection (.removeLanguage (slotOf r) languageId authz) fun w =>
        (w.devices (slotOf r)).map fun d =>
          (.ofRc (d.languages.removeLanguage languageId authz).1, .empty)
  | _ => .respond (.unimplemented, .empty)

/-- `LanguagePack::proceed`. Without an fqoid, `substr(1)` throws before anything is checked, and
the token is read before the slot is looked up. -/
def task (r : Request) : Task :=
  let ans := message r {}
  if r.fqoid = [] then .respond (.internal, ans)
  else if 65535 < slotOf r then
    .refuse ans ⟨"slot number out of range", .invalidArgument⟩
  else
    .attempt ans (if r.method = .get then .ok (.kAuthzDisabled, 0) else cfg.readToken r)
      fun decoded =>
        if slotOf r ∉ cfg.slots then
          .refuse ans ⟨"device not found in slot " ++ toString (slotOf r), .notFound⟩
        else perform cfg r (String.ofList r.fqoid.tail) decoded.1

end LanguagePack

/-! ## Controllers that write several messages -/

def attempt {α : Type} (writer : Writer) (r : Except ExceptionWithStatus α) (rest : α → Code) :
    Code :=
  match r with
  | .error rc => finish cfg (.ofRc rc) .empty writer
  | .ok a => rest a

/-- A section that uses the device of a slot. Without one a null pointer is dereferenced. -/
def withDevice (a : Action) (slot : Nat) (rest : World → ServedDevice → Code) : Code :=
  .locked a fun w => (w.devices slot).elim .abort (rest w)

namespace DeviceRequest

/-- The loop over the components, each of which is taken out under the mutex of the device. -/
def stream (slot : Nat) (authz : Authorizer) :
    Coroutine DeviceKey DeviceKey → Writer → Code
  | .ret key, writer =>
      withDevice .look slot fun _ d =>
        send cfg .ok (.deviceComponent (d.component authz key)) writer (finish cfg .ok .empty)
  | .yield key serializer, writer =>
      withDevice .look slot fun _ d =>
        send cfg .ok (.deviceComponent (d.component authz key)) writer
          (stream slot authz serializer)

/-- Make the serializer, and write while it has more. -/
def start (r : Request) (authz : Authorizer) (writer : Writer) (subscribedOids : List String) :
    Code :=
  withDevice .look (slotOf r) fun _ d =>
    attempt cfg writer (d.getComponentSerializer authz subscribedOids r.detailLevel)
      fun serializer => serializer.body.elim (finish cfg .ok .empty writer)
        (stream cfg (slotOf r) authz · writer)

/-- `DeviceRequest::proceed`. It subscribes to nothing. -/
def proceed (r : Request) (writer : Writer) : Code :=
  attempt cfg writer (cfg.checkSlot (slotOf r)) fun _ =>
    attempt cfg writer (cfg.readToken r) fun decoded =>
      if r.detailLevel = .subscriptions then
        withDevice .look (slotOf r) fun w d =>
          start cfg r decoded.1 writer (w.getAllSubscribedOids d)
      else start cfg r decoded.1 writer []

end DeviceRequest

namespace ExecuteCommand

/-- `catch` in `ExecuteCommand::proceed`. -/
def thrown : Raised → StatusCode
  | some why => .ofRc why.1
  | none => .unknown

/-- `authz->isExpired()`, and the rest if it is not. -/
def unlessExpired (exp : Nat) (writer : Writer) (rest : Code) : Code :=
  .locked .look fun w =>
    if exp ≠ 0 ∧ exp < w.now then finish cfg .unauthenticated .empty writer else rest

/-- Tell a response, if the client wants responses. -/
def tell (respond : Bool) (response : CommandResponse) (writer : Writer) (rest : Writer → Code) :
    Code :=
  if respond then send cfg .ok (.commandResponse response) writer rest else rest writer

/-- The responder is resumed until it has ended. -/
def resume (exp : Nat) (respond : Bool) : Responder → Writer → Code
  | .run effect rest, writer => .locked (.change effect) fun w => resume exp respond (rest w) writer
  | .yield response rest, writer =>
      tell cfg respond response writer fun writer =>
        unlessExpired cfg exp writer (resume exp respond rest writer)
  | .ret response, writer => tell cfg respond response writer (finish cfg .ok .empty)
  | .throw why, writer => finish cfg (thrown why) .empty writer

/-- `ParamDescriptor::executeCommand`, and the loop over what it returns. -/
def execute (r : Request) (value : Value) (respond : Bool) (decoded : Authorizer × Nat)
    (command : String × Node) (writer : Writer) : Code :=
  if !decoded.1.writeAuthz command.2.descriptor then
    finish cfg .permissionDenied .empty writer
  else
    match cfg.commandImpl (slotOf r) command.1 value respond with
    | .error why => finish cfg (thrown why) .empty writer
    | .ok none => finish cfg .internal .empty writer
    | .ok (some responder) =>
        unlessExpired cfg decoded.2 writer (resume cfg decoded.2 respond responder writer)

/-- The body of the request, which may be missing. -/
def value (r : Request) : Option Value :=
  if r.jsonBody = [] then some .kindNotSet else cfg.parseValue r.jsonBody

/-- `ExecuteCommand::proceed`. -/
def proceed (r : Request) (writer : Writer) : Code :=
  let respond := (r.fields.lookup "respond".toList).isSome
  attempt cfg writer (cfg.checkSlot (slotOf r)) fun _ =>
    match value cfg r with
    | none => finish cfg .invalidArgument .empty writer
    | some value =>
        attempt cfg writer (cfg.readToken r) fun decoded =>
          withDevice .look (slotOf r) fun _ d =>
            match d.getCommand (fqoidOf r) decoded.1 with
            | .error _ => finish cfg .unknown .empty writer
            | .ok found =>
                attempt cfg writer found fun command =>
                  execute cfg r value respond decoded command writer

end ExecuteCommand

namespace Subscriptions

/-- `GET/subscriptions`: the loop over the subscribed oids. -/
def list (slot : Nat) (authz : Authorizer) : List String → Writer → Code
  | [], writer => finish cfg .ok .empty writer
  | oid :: oids, writer =>
      withDevice .look slot fun _ d =>
        (listing d.device d.values authz authz oid).elim (list slot authz oids writer)
          fun listed => send cfg .ok (.componentParam listed.res) writer (list slot authz oids)

/-- What follows from what `addSubscription` comes to. Its status is suppressed, an exception is
not. -/
def afterAdding (writer : Writer) (rest : Code) :
    Except Stop (ExceptionWithStatus × SubscriptionManager) → Code
  | .error (.threw (.withStatus why)) => finish cfg (.ofRc why) .empty writer
  | .error (.threw .outOfRange) => finish cfg .unknown .empty writer
  | .error .outOfFuel => .abort
  | .ok _ => rest

def add (slot : Nat) (authz : Authorizer) (writer : Writer) (rest : Code) : List String → Code
  | [] => rest
  | oid :: oids =>
      withDevice (.addSubscription slot oid authz) slot fun w d =>
        afterAdding cfg writer (add slot authz writer rest oids)
          (w.subscriptions.addSubscription oid d.device d.values authz)

def remove (slot : Nat) (rest : Code) : List String → Code
  | [] => rest
  | oid :: oids => .locked (.removeSubscription slot oid) fun _ => remove slot rest oids

/-- `PUT/subscriptions`. -/
def update (r : Request) (authz : Authorizer) (writer : Writer) : Code :=
  match cfg.parseUpdates r.jsonBody with
  | none => finish cfg .invalidArgument .empty writer
  | some (addedOids, removedOids) =>
      add cfg (slotOf r) authz writer
        (remove (slotOf r) (finish cfg .ok .empty writer) removedOids) addedOids

/-- `Subscriptions::proceed`. -/
def proceed (r : Request) (writer : Writer) : Code :=
  attempt cfg writer (cfg.checkSlot (slotOf r)) fun _ =>
    withDevice .look (slotOf r) fun _ d =>
      if !d.subscriptions then finish cfg .failedPrecondition .empty writer
      else
        attempt cfg writer (cfg.readToken r) fun decoded =>
          match r.method with
          | .get =>
              withDevice .look (slotOf r) fun w d =>
                list cfg (slotOf r) decoded.1 (w.getAllSubscribedOids d) writer
          | .put => update cfg r decoded.1 writer
          | _ => finish cfg .unimplemented .empty writer

end Subscriptions

end Catena.Rest
