import Catena.Framework.Shutdown
import Catena.Rest.Controllers

/-!
# The REST server

`ServiceImpl::run` accepts connections until it is shut down, and handles each on a thread of its
own: it reads the request, finds the controller for its method and endpoint, and lets it proceed.
-/

namespace Catena.Rest

open Store Rpc Grpc Framework

/-- The classes derived from `ICallData`. -/
inductive Product where
  | connect
  | deviceRequest
  | executeCommand
  | assetRequest
  | getPopulatedSlots
  | getValue
  | multiSetValue
  | setValue
  | getParam
  | languagePack
  | languages
  | paramInfoRequest
  | subscriptions
  deriving DecidableEq, Repr

/-- `router_`. -/
def router : List (String × Product) :=
  [("GET/connect", .connect), ("GET", .deviceRequest), ("POST/command", .executeCommand),
    ("GET/asset", .assetRequest), ("POST/asset", .assetRequest), ("PUT/asset", .assetRequest),
    ("DELETE/asset", .assetRequest), ("GET/devices", .getPopulatedSlots), ("GET/value", .getValue),
    ("PUT/values", .multiSetValue), ("PUT/value", .setValue), ("GET/param", .getParam),
    ("GET/language-pack", .languagePack), ("PUT/language-pack", .languagePack),
    ("POST/language-pack", .languagePack), ("DELETE/language-pack", .languagePack),
    ("GET/languages", .languages), ("GET/param-info", .paramInfoRequest),
    ("GET/subscriptions", .subscriptions), ("PUT/subscriptions", .subscriptions)]

/-- The forward map of `RESTMethodMap`. -/
def methodName : RESTMethod → String
  | .none => "NONE"
  | .get => "GET"
  | .post => "POST"
  | .put => "PUT"
  | .patch => "PATCH"
  | .delete => "DELETE"
  | .head => "HEAD"
  | .options => "OPTIONS"

def requestKey (r : Request) : String := methodName r.method ++ String.ofList r.endpoint

/-- What a client sends, and the time at which the request is received. -/
structure Peer where
  arrival : Arrival
  now : Int := 0

variable (cfg : Config)

namespace Product

/-- `proceed`, with the writer that the constructor makes. -/
def proceed (r : Request) : Product → Code
  | .getPopulatedSlots => (GetPopulatedSlots.task cfg).code cfg (unaryWriter r)
  | .getValue => (GetValue.task cfg r).code cfg (unaryWriter r)
  | .multiSetValue => (MultiSetValue.task cfg r).code cfg (unaryWriter r)
  | .setValue => (SetValue.task cfg r).code cfg (unaryWriter r)
  | .getParam => (GetParam.task cfg r).code cfg (unaryWriter r)
  | .languagePack => (LanguagePack.task cfg r).code cfg (unaryWriter r)
  | .languages => (Languages.task cfg r).code cfg (unaryWriter r)
  | .deviceRequest => DeviceRequest.proceed cfg r (.ofStream r.stream r.origin)
  | .executeCommand => ExecuteCommand.proceed cfg r (.ofStream r.stream r.origin)
  | .subscriptions =>
      Subscriptions.proceed cfg r (.ofStream (r.method = .get ∧ r.stream) r.origin)
  | .connect | .assetRequest | .paramInfoRequest => cfg.others r

end Product

/-- The `catch` clauses around the request. -/
def failed : ReadFailure → StatusCode
  | .withStatus why => .ofRc why
  | .systemError => .internal
  | .lengthError => .unknown

/-- A response without a message, by a writer of its own. -/
def respond (rc : StatusCode) : Code := finish cfg rc .empty (.socket {})

/-- What is done with a request that has been read. The status for OPTIONS is no OK, so that it is
written a second time. -/
def handle (r : Request) : Code :=
  if r.method = .options then
    send cfg .noContent .empty (unaryWriter r) fun _ => respond cfg .noContent
  else if r.method = .get ∧ r.endpoint = "/health".toList then
    finish cfg .ok .empty (unaryWriter r)
  else
    match router.lookup (requestKey r) with
    | some product => product.proceed cfg r
    | none => respond cfg .unimplemented

namespace Config

/-- What a `SocketReader` knows of the service. -/
def service : Rpc.Service := ⟨cfg.version, cfg.authorizationEnabled, cfg.urlView⟩

def read (peer : Peer) : Except ReadFailure Request :=
  SocketReader.read cfg.service [] peer.now peer.arrival

end Config

/-- The thread of a connection, before a shutdown. -/
def serve (peer : Peer) : Code :=
  match cfg.read peer with
  | .error why => respond cfg (failed why)
  | .ok r => handle cfg r

/-- `ServiceImpl` with the threads that `run` starts. -/
def server : Handlers.Server World Action Text Peer where
  serve := serve cfg
  refuse _ := respond cfg .unavailable
  act := World.act

end Catena.Rest
