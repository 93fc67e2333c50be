import Catena.Grpc.Interface

/-!
# Controllers that answer once

Eight controllers take the same turns: they wait for a request, make the object that waits for the
next one, look at the request, do their work in one section, and finish. They differ in the checks
before the section and in what they do in it.
-/

namespace Catena.Grpc

open Store Rpc Framework.Completion

variable {i : Controller}

/-- Enter `kFinish` and finish with an answer. -/
def finish (enter : CallStatus → grpc.State i) (r : grpc.Answer i) : Code grpc i :=
  .set (enter .kFinish) (.post (.finish r) .done)

/-- `proceed`. A failed operation ends the process of the object; in `kProcess` the object for the
next request is made first. No object is ever in `kRead`. -/
def turn (enter : CallStatus → grpc.State i) (status : CallStatus) (ok : Bool)
    (illegal : grpc.Answer i) (process write postWrite : Code grpc i) : Code grpc i :=
  if !ok then .set (enter .kFinish) (.delete .done)
  else
    match status with
    | .kCreate => .set (enter .kProcess) (.post .request .done)
    | .kProcess => .spawn process
    | .kRead => finish enter illegal
    | .kWrite => write
    | .kPostWrite => postWrite
    | .kFinish => .delete .done

/-- A section that uses the device of a slot. Without one a null pointer is dereferenced. -/
def withDevice (a : Action) (slot : Nat) (rest : World → ServedDevice → Code grpc i) :
    Code grpc i :=
  .locked a fun w => (w.devices slot).elim .abort (rest w)

/-- How a request is processed: by an answer at once, or in a section whose answer is read off the
world, `none` if a null pointer is dereferenced. -/
inductive Task (i : Controller) where
  | respond (r : grpc.Answer i)
  | inSection (a : Action) (answer : World → Option (grpc.Answer i))

namespace Task

def code (enter : CallStatus → grpc.State i) : Task i → Code grpc i
  | .respond r => finish enter r
  | .inSection a answer => .locked a fun w => (answer w).elim .abort (finish enter)

/-- The checks of the slot, before the rest of a task. -/
def atSlot (refuse : ExceptionWithStatus → grpc.Answer i) (cfg : Config) (slot : Nat)
    (rest : Task i) : Task i :=
  match cfg.checkSlot slot with
  | .error rc => .respond (refuse rc)
  | .ok () => rest

def authorized (refuse : ExceptionWithStatus → grpc.Answer i) (cfg : Config) (slot : Nat)
    (authorization : Option String) (rest : Authorizer → Task i) : Task i :=
  atSlot refuse cfg slot <|
    match cfg.authorizer authorization with
    | .error rc => .respond (refuse rc)
    | .ok decoded => rest decoded.1

end Task

/-- Answer with the status of an operation, or with its result if the status is OK. -/
def result {α : Type} (rc : ExceptionWithStatus) (ans : α) : Except Status α :=
  if rc.isOk then .ok ans else .error (.ofRc rc)

def refuse {α : Type} (rc : ExceptionWithStatus) : Except Status α := .error (.ofRc rc)

variable (cfg : Config)

def GetPopulatedSlots.task : Task .getPopulatedSlots := .respond (.ok cfg.slots)

def GetValue.task (q : Received OidPayload) : Task .getValue :=
  .authorized refuse cfg q.message.slot q.authorization fun authz =>
    .inSection .look fun w => (w.devices q.message.slot).map fun d =>
      let read := d.device.getValue d.values q.message.oid .kindNotSet authz
      result read.1 read.2

/-- The answer of `MultiSetValue::proceed` to what has become of the call. -/
def MultiSetValue.answer {σ : Type} : CallResult σ → Option (Except Status Unit)
  | .returned rc _ => some (result rc ())
  | .threw (.withStatus why) _ => some (refuse why)
  | .threw .outOfRange _ => some (refuse ⟨"unknown error", .unknown⟩)
  | .nullDereference _ => none

/-- The section of `MultiSetValue`, for the controllers derived from it. -/
def MultiSetValue.commit (slot : Nat) (values : List SetValuePayload) (authz : Authorizer)
    (w : World) : Option (Except Status Unit) :=
  (w.devices slot).bind fun d => MultiSetValue.answer (d.device.multiSetValue d.values values authz)

def MultiSetValue.task (q : Received MultiSetValuePayload) : Task .multiSetValue :=
  .authorized refuse cfg q.message.slot q.authorization fun authz =>
    .inSection (.write q.message.slot (.multiSetValue q.message.values authz))
      (MultiSetValue.commit q.message.slot q.message.values authz)

/-- `SetValue::toMulti_`: the payload as a list of one. -/
def SetValue.task (q : Received SingleSetValuePayload) : Task .setValue :=
  .authorized refuse cfg q.message.slot q.authorization fun authz =>
    .inSection (.write q.message.slot (.multiSetValue [q.message.value] authz))
      (MultiSetValue.commit q.message.slot [q.message.value] authz)

def GetParam.task (q : Received OidPayload) : Task .getParam :=
  .authorized refuse cfg q.message.slot q.authorization fun authz =>
    .inSection .look fun w => (w.devices q.message.slot).map fun d =>
      match d.device.getParamByOid d.values q.message.oid authz with
      | .error rc => refuse rc
      | .ok param =>
          let written := param.toProtoParam authz
          result written.1 ⟨param.descriptor.getOid, written.2⟩

def AddLanguage.task (q : Received SlotLanguagePayload) : Task .addLanguage :=
  .authorized refuse cfg q.message.slot q.authorization fun authz =>
    .inSection (.addLanguage q.message.slot q.message.language authz) fun w =>
      (w.devices q.message.slot).bind fun d =>
        (d.languages.addLanguage q.message.language authz).map fun added => result added.1 ()

def ListLanguages.task (q : Received Nat) : Task .listLanguages :=
  .atSlot refuse cfg q.message <|
    .inSection .look fun w => (w.devices q.message).map fun d => .ok d.languageList

def LanguagePackRequest.task (q : Received LanguagePackRequestPayload) :
    Task .languagePackRequest :=
  .atSlot refuse cfg q.message.slot <|
    .inSection .look fun w => (w.devices q.message.slot).bind fun d =>
      (d.getLanguagePack q.message.language).map fun found => result found.1 found.2

def illegalState : Status := ⟨13, "illegal state"⟩

end Catena.Grpc
