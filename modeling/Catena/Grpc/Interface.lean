import Mathlib.Data.Finset.Sort
import Mathlib.Data.String.Basic
import Catena.Framework.Coroutine
import Catena.Grpc.Service
import Catena.Rpc.Subscriptions

/-!
# The controllers of the gRPC service

The requests, states, messages and answers of each controller. A controller that answers once has
no messages. `Connect` and `ParamInfoRequest` are not among them.
-/

namespace Catena.Grpc

open Store Rpc Framework Framework.Completion

/-- The classes derived from `CallData`, but for `Connect` and `ParamInfoRequest`. -/
inductive Controller where
  | getPopulatedSlots
  | getValue
  | setValue
  | multiSetValue
  | deviceRequest
  | externalObjectRequest
  | getParam
  | executeCommand
  | addLanguage
  | listLanguages
  | languagePackRequest
  | updateSubscriptions
  deriving DecidableEq, Repr

/-- `grpc::Status`. -/
structure Status where
  code : Nat
  message : String
  deriving DecidableEq, Repr

namespace Status

/-- The numbers of `StatusCode`. -/
def number : StatusCode → Nat
  | .ok => 0
  | .cancelled => 1
  | .unknown => 2
  | .invalidArgument => 3
  | .deadlineExceeded => 4
  | .notFound => 5
  | .alreadyExists => 6
  | .permissionDenied => 7
  | .resourceExhausted => 8
  | .outOfRange => 11
  | .unimplemented => 12
  | .internal => 13
  | .dataLoss => 15
  | .unauthenticated => 16
  | .noContent => 204

/-- `Status::OK`. -/
def OK : Status := ⟨0, ""⟩

/-- `Status::CANCELLED`. -/
def CANCELLED : Status := ⟨1, ""⟩

/-- `Status(static_cast<grpc::StatusCode>(rc.status), rc.what())`. -/
def ofRc (rc : ExceptionWithStatus) : Status := ⟨number rc.status, rc.what⟩

end Status

/-! ## Payloads -/

/-- `st2138::GetValuePayload` and `st2138::GetParamPayload`. -/
structure OidPayload where
  slot : Nat
  oid : String

/-- `st2138::SingleSetValuePayload`. -/
structure SingleSetValuePayload where
  slot : Nat
  value : SetValuePayload

/-- `st2138::MultiSetValuePayload`. -/
structure MultiSetValuePayload where
  slot : Nat
  values : List SetValuePayload

/-- `st2138::DeviceRequestPayload`. -/
structure DeviceRequestPayload where
  slot : Nat
  detailLevel : DetailLevel
  subscribedOids : List String

/-- `st2138::ExecuteCommandPayload`. -/
structure ExecuteCommandPayload where
  slot : Nat
  oid : String
  value : Value
  respond : Bool

/-- `st2138::AddLanguagePayload` with its slot. -/
structure SlotLanguagePayload where
  slot : Nat
  language : AddLanguagePayload

/-- `st2138::LanguagePackRequestPayload`. -/
structure LanguagePackRequestPayload where
  slot : Nat
  language : String

/-- `st2138::UpdateSubscriptionsPayload`. -/
structure UpdateSubscriptionsPayload where
  slot : Nat
  addedOids : List String
  removedOids : List String

/-- `st2138::ExternalObjectPayload`: the payload of its `DataPayload` and the digest. -/
structure ExternalObjectPayload where
  payload : Bytes
  digest : Bytes

/-- What a component of a device is about. The serializer of a device fills a component in when it
is resumed, from the device as it is then. -/
inductive DeviceKey where
  | moved
  | header
  | menu (group name : String)
  | languagePack (language : String)
  | sharedConstraint (name : String)
  | command (name : String)
  | param (name : String)

/-! ## States -/

/-- The members of `DeviceRequest`. -/
structure DeviceRequest where
  status : CallStatus
  authz : Authorizer := .kAuthzDisabled
  serializer : Option (Coroutine.Handle DeviceKey) := none

/-- The members of `ExecuteCommand`. -/
structure ExecuteCommand where
  status : CallStatus
  exp : Nat := 0
  responder : Option Responder := none

/-- The members of `UpdateSubscriptions`, with the oids from `it_` on. -/
structure UpdateSubscriptions where
  status : CallStatus
  authz : Authorizer := .kAuthzDisabled
  it : List String := []

namespace Controller

abbrev Request : Controller → Type
  | .getPopulatedSlots => Received Unit
  | .getValue | .getParam => Received OidPayload
  | .setValue => Received SingleSetValuePayload
  | .multiSetValue => Received MultiSetValuePayload
  | .deviceRequest => Received DeviceRequestPayload
  | .externalObjectRequest => Received OidPayload
  | .executeCommand => Received ExecuteCommandPayload
  | .addLanguage => Received SlotLanguagePayload
  | .listLanguages => Received Nat
  | .languagePackRequest => Received LanguagePackRequestPayload
  | .updateSubscriptions => Received UpdateSubscriptionsPayload

abbrev State : Controller → Type
  | .deviceRequest => DeviceRequest
  | .executeCommand => ExecuteCommand
  | .updateSubscriptions => UpdateSubscriptions
  | _ => CallStatus

/-- What a controller writes before it finishes. -/
abbrev Message : Controller → Type
  | .deviceRequest => DeviceComponent
  | .externalObjectRequest => ExternalObjectPayload
  | .executeCommand => CommandResponse
  | .updateSubscriptions => ComponentParam
  | _ => Empty

/-- What a controller finishes with: a response or an error, or the status of a stream. -/
abbrev Answer : Controller → Type
  | .getPopulatedSlots => Except Status (List Nat)
  | .getValue => Except Status Value
  | .setValue | .multiSetValue | .addLanguage => Except Status Unit
  | .getParam => Except Status ComponentParam
  | .listLanguages => Except Status (List String)
  | .languagePackRequest => Except Status ComponentLanguagePack
  | _ => Status

end Controller

abbrev grpc : Framework.Completion.Interface where
  Kind := Controller
  World := World
  Action := Action
  Request := Controller.Request
  State := Controller.State
  Message := Controller.Message
  Answer := Controller.Answer

instance : DecidableEq grpc.Kind := inferInstanceAs (DecidableEq Controller)

end Catena.Grpc
