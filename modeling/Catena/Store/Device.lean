import Catena.Store.ParamWithValue

/-!
# The device

A device owns its top level parameters; its state is one value for each of them. Clients
write through `setValue` and through the `tryMultiSetValue` / `commitMultiSetValue` pair, and
read through `getValue`. A null pointer that `commitMultiSetValue` would dereference ends the
run of the program, with the store as the earlier entries left it.
-/

namespace Catena.Store

open ExceptionWithStatus (ok)

structure Device where
  slot : Nat := 0
  multiSetEnabled : Bool := true
  defaults : DeviceDefaults
  params : Fields
  wellFormed : params.WellFormed

/-- `st2138::SetValuePayload`. -/
structure SetValuePayload where
  oid : String
  value : Value

/-- How a call on the device ends. -/
inductive CallResult (σ : Type) where
  | returned (ans : ExceptionWithStatus) (store : σ)
  | threw (why : Thrown) (store : σ)
  | nullDereference (store : σ)

def CallResult.store {σ : Type} : CallResult σ → σ
  | .returned _ store | .threw _ store | .nullDereference store => store

namespace Device

/-- The values of the parameters. -/
abbrev State (d : Device) : Type := d.params.Vals

def descriptor (d : Device) (info : Descriptor) (ty : Ty) : ParamDescriptor :=
  ⟨ty.paramType, info, [], d.defaults⟩

/-- `Device::getParam`. -/
def getParam (d : Device) (s : d.State) (path : List Segment) (authz : Authorizer) :
    Except ExceptionWithStatus (Param d.State) :=
  let fqoid := Path.fqoid path
  match path with
  | .name oid :: rest =>
      match d.params.findParamByName s oid with
      | none => .error ⟨"Param " ++ fqoid ++ " does not exist", .notFound⟩
      | some member =>
          let pd := d.descriptor member.info member.ty
          if !authz.readAuthz pd then
            .error ⟨"Not authorized to read the param " ++ fqoid, .permissionDenied⟩
          else if rest = [] then
            .ok { ty := member.ty, descriptor := pd, value := member.value, assign := member.put }
          else Store.getParam authz fqoid rest member.ty pd member.value member.put
  | _ => .error ⟨"Invalid json pointer " ++ fqoid, .invalidArgument⟩

/-- The overlap test between an oid already accepted and the next one. -/
def overlapping (oid next : String) : Bool :=
  !(endsWith oid "/-" && endsWith next "/-") && (startsWith oid next || startsWith next oid)

/-- The validation loop: the final status and the oids it has recorded. -/
def tryLoop (d : Device) (s : d.State) (authz : Authorizer) :
    List SetValuePayload → ExceptionWithStatus → List String →
      Except Thrown (ExceptionWithStatus × List String)
  | [], ans, affectedOids => .ok (ans, affectedOids)
  | payload :: payloads, ans, affectedOids =>
      match affectedOids.find? (overlapping · payload.oid) with
      | some oid =>
          tryLoop d s authz payloads
            ⟨"Overlapping actions for " ++ oid ++ " and " ++ payload.oid, .invalidArgument⟩
            affectedOids
      | none =>
          if !ans.isOk then tryLoop d s authz payloads ans affectedOids
          else
            let affectedOids := affectedOids ++ [payload.oid]
            match Path.parse payload.oid with
            | .error (.withStatus why) => .ok (why, affectedOids)
            | .error .outOfRange => .error .outOfRange
            | .ok path =>
                let index := (Path.backIndex path).getD Path.kNone
                let path := if (Path.backIndex path).isSome then Path.popBack path else path
                match d.getParam s path authz with
                | .error status => .ok (status, affectedOids)
                | .ok param =>
                    let ans := (param.validateSetValue authz payload.value index).1
                    if ans.isOk then tryLoop d s authz payloads ans affectedOids
                    else .ok (ans, affectedOids)

/-- The loop that resets the trackers parses every recorded oid again. -/
def resetLoop : List String → Except Thrown Unit
  | [] => .ok ()
  | oid :: oids =>
      match Path.parse oid with
      | .error why => .error why
      | .ok _ => resetLoop oids

/-- `Device::tryMultiSetValue` entered with an OK status: the status it leaves. It returns
true when that status is OK. -/
def tryMultiSetValue (d : Device) (s : d.State) (src : List SetValuePayload)
    (authz : Authorizer) : Except Thrown ExceptionWithStatus :=
  if 1 < src.length ∧ !d.multiSetEnabled then
    .ok ⟨"Multi-set is disabled for the device in slot " ++ toString d.slot, .permissionDenied⟩
  else
    match tryLoop d s authz src ok [] with
    | .error why => .error why
    | .ok (ans, affectedOids) =>
        match resetLoop affectedOids with
        | .error why => .error why
        | .ok _ => .ok ans

/-- The parameter `commitMultiSetValue` is about to write, `none` for a null pointer. When
the last segment is an index the cursor has walked the parent's path, so that the index
pushed back is all that is left of it. -/
def commitTarget (d : Device) (s : d.State) (path : List Segment) (authz : Authorizer) :
    Option (Param d.State) :=
  match Path.backIndex path with
  | some index =>
      match d.getParam s (Path.popBack path) authz with
      | .error _ => none
      | .ok parent =>
          if index = Path.kEnd then (parent.addBack authz).toOption
          else (Store.getParam authz (Path.fqoid path) [.index index] parent.ty parent.descriptor
            parent.value parent.assign).toOption
  | none => (d.getParam s path authz).toOption

/-- `Device::commitMultiSetValue`, with the status left by the entry before. The status of an
entry does not stop the loop. -/
def commitLoop (d : Device) (authz : Authorizer) :
    List SetValuePayload → ExceptionWithStatus → d.State → CallResult d.State
  | [], ans, s => .returned ans s
  | payload :: payloads, _, s =>
      match Path.parse payload.oid with
      | .error (.withStatus why) => .returned why s
      | .error .outOfRange => .threw .outOfRange s
      | .ok path =>
          match d.commitTarget s path authz with
          | none => .nullDereference s
          | some param =>
              let written := param.fromProto authz payload.value
              commitLoop d authz payloads written.1 written.2

def commitMultiSetValue (d : Device) (s : d.State) (src : List SetValuePayload)
    (authz : Authorizer) : CallResult d.State :=
  commitLoop d authz src ok s

/-- The body of the MultiSetValue handlers: commit what has been validated. -/
def multiSetValue (d : Device) (s : d.State) (src : List SetValuePayload) (authz : Authorizer) :
    CallResult d.State :=
  match d.tryMultiSetValue s src authz with
  | .error why => .threw why s
  | .ok ans => if ans.isOk then d.commitMultiSetValue s src authz else .returned ans s

/-- `Device::setValue`. -/
def setValue (d : Device) (s : d.State) (jptr : String) (src : Value) (authz : Authorizer) :
    CallResult d.State :=
  d.multiSetValue s [⟨jptr, src⟩] authz

/-- `Device::getValue`: the status, and the destination afterwards. -/
def getValue (d : Device) (s : d.State) (jptr : String) (dst : Value) (authz : Authorizer) :
    ExceptionWithStatus × Value :=
  match Path.parse jptr with
  | .error (.withStatus why) => (why, dst)
  | .error .outOfRange => (⟨"stoul", .internal⟩, dst)
  | .ok path =>
      if Path.backIndex path = some Path.kEnd then
        (⟨"Index out - of bounds in path " ++ jptr, .outOfRange⟩, dst)
      else
        match d.getParam s path authz with
        | .error status => (status, dst)
        | .ok param => param.toProto authz dst

end Device

/-- A write call made by a client. -/
inductive Call where
  | setValue (jptr : String) (src : Value) (authz : Authorizer)
  | multiSetValue (src : List SetValuePayload) (authz : Authorizer)

namespace Device

def call (d : Device) (s : d.State) : Call → CallResult d.State
  | .setValue jptr src authz => d.setValue s jptr src authz
  | .multiSetValue src authz => d.multiSetValue s src authz

/-- The store after a run of calls. A null pointer dereference ends the run. -/
def run (d : Device) (s : d.State) : List Call → d.State
  | [] => s
  | c :: cs =>
      match d.call s c with
      | .nullDereference s' => s'
      | .returned _ s' | .threw _ s' => d.run s' cs

end Device

end Catena.Store
