import Catena.Framework.EventStream
import Catena.Framework.Http
import Catena.Grpc.Interface
import Catena.Rpc.Framing

/-!
# Writing REST responses

`SocketWriter` writes one response, for which it may put several messages together first.
`SSEWriter` writes every message at once, as an event, and tells the status with the first: an
error that comes later is not written. A text is a list of bytes.
-/

namespace Catena.Rest

open Store Rpc Grpc Framework

/-- `catena::StatusCode`. -/
inductive StatusCode where
  | ok
  | cancelled
  | unknown
  | invalidArgument
  | deadlineExceeded
  | notFound
  | alreadyExists
  | permissionDenied
  | unauthenticated
  | resourceExhausted
  | failedPrecondition
  | aborted
  | outOfRange
  | unimplemented
  | internal
  | unavailable
  | dataLoss
  | doNotUse
  | created
  | accepted
  | noContent
  | unprocessableEntity
  | methodNotAllowed
  | conflict
  | tooManyRequests
  | badGateway
  | serviceUnavailable
  | gatewayTimeout
  deriving DecidableEq, Repr

namespace StatusCode

def number : StatusCode → Int
  | .ok => 0
  | .cancelled => 1
  | .unknown => 2
  | .invalidArgument => 3
  | .deadlineExceeded => 4
  | .notFound => 5
  | .alreadyExists => 6
  | .permissionDenied => 7
  | .unauthenticated => 16
  | .resourceExhausted => 8
  | .failedPrecondition => 9
  | .aborted => 10
  | .outOfRange => 11
  | .unimplemented => 12
  | .internal => 13
  | .unavailable => 14
  | .dataLoss => 15
  | .doNotUse => -1
  | .created => 201
  | .accepted => 202
  | .noContent => 204
  | .unprocessableEntity => 422
  | .methodNotAllowed => 405
  | .conflict => 409
  | .tooManyRequests => 429
  | .badGateway => 502
  | .serviceUnavailable => 503
  | .gatewayTimeout => 504

/-- The status of an exception of the device model. -/
def ofRc (rc : ExceptionWithStatus) : StatusCode :=
  match rc.status with
  | .ok => .ok
  | .cancelled => .cancelled
  | .unknown => .unknown
  | .invalidArgument => .invalidArgument
  | .deadlineExceeded => .deadlineExceeded
  | .notFound => .notFound
  | .alreadyExists => .alreadyExists
  | .permissionDenied => .permissionDenied
  | .unauthenticated => .unauthenticated
  | .resourceExhausted => .resourceExhausted
  | .outOfRange => .outOfRange
  | .unimplemented => .unimplemented
  | .internal => .internal
  | .dataLoss => .dataLoss
  | .noContent => .noContent

theorem number_ofRc (rc : ExceptionWithStatus) :
    (ofRc rc).number = (Status.ofRc rc).code := by
  cases rc with
  | mk what status => cases status <;> rfl

theorem ofRc_eq_ok {rc : ExceptionWithStatus} : ofRc rc = .ok ↔ rc.isOk = true := by
  cases rc with
  | mk what status => cases status <;> simp [ofRc]

end StatusCode

/-- `codeMap_`. -/
def codeMap : StatusCode → Nat × String
  | .ok => (200, "OK")
  | .created => (201, "Created")
  | .accepted => (202, "Accepted")
  | .noContent => (204, "No Content")
  | .alreadyExists => (208, "Already Reported")
  | .cancelled => (400, "Cancelled")
  | .invalidArgument => (400, "Bad Request")
  | .unauthenticated => (401, "Unauthorized")
  | .permissionDenied => (403, "Forbidden")
  | .notFound => (404, "Not Found")
  | .methodNotAllowed => (405, "Method Not Allowed")
  | .deadlineExceeded => (408, "Request Timeout")
  | .conflict => (409, "Conflict")
  | .aborted => (409, "Conflict")
  | .failedPrecondition => (412, "Precondition Failed")
  | .unprocessableEntity => (422, "Unprocessable Entity")
  | .resourceExhausted => (429, "Too Many Requests")
  | .tooManyRequests => (429, "Too Many Requests")
  | .outOfRange => (416, "Range Not Satisfiable")
  | .badGateway => (502, "Bad Gateway")
  | .unimplemented => (501, "Not Implemented")
  | .internal => (500, "Internal Server Error")
  | .unknown => (500, "Internal Server Error")
  | .dataLoss => (500, "Internal Server Error")
  | .doNotUse => (500, "Internal Server Error")
  | .serviceUnavailable => (503, "Service Unavailable")
  | .unavailable => (503, "Service Unavailable")
  | .gatewayTimeout => (504, "Gateway Timeout")

/-- The messages of the controllers; `empty` is `st2138::Empty`. -/
inductive Message where
  | empty
  | value (value : Value)
  | slotList (slots : List Nat)
  | componentParam (param : ComponentParam)
  | languageList (languages : List String)
  | languagePack (pack : ComponentLanguagePack)
  | deviceComponent (component : DeviceComponent)
  | commandResponse (response : CommandResponse)

def Message.isEmpty : Message → Bool
  | .empty => true
  | _ => false

/-- What `MessageToJsonString` writes: one line, which is not empty. -/
def JsonText : Type := { text : Text // text ≠ [] ∧ '\n' ∉ text ∧ '\r' ∉ text }

/-- `MessageToJsonString`. When it fails, it has put out some text before. -/
abbrev Printer : Type := Message → Except Text JsonText

def allowMethods : Text := "GET, POST, PUT, DELETE, OPTIONS".toList

def allowHeaders : Text :=
  ("Content-Type, Authorization, accept, Origin, X-Requested-With, Language, " ++
    "Detail-Level").toList

/-- The headers that let a page of another origin read the response. -/
def accessHeaders (origin : Text) : List (Text × Text) :=
  [("Access-Control-Allow-Origin".toList, origin),
    ("Access-Control-Allow-Methods".toList, allowMethods),
    ("Access-Control-Allow-Headers".toList, allowHeaders),
    ("Access-Control-Allow-Credentials".toList, "true".toList)]

def statusLine (httpStatus : Nat × String) : Text :=
  "HTTP/1.1 ".toList ++ (toString httpStatus.1).toList ++ ' ' :: httpStatus.2.toList

/-- The response of a `SocketWriter`. -/
def unaryResponse (httpStatus : Nat × String) (origin jsonBody : Text) : Http.Message where
  startLine := statusLine httpStatus
  headers :=
    [("Content-Type".toList, "application/json".toList),
      ("Connection".toList, "close".toList),
      ("Content-Length".toList, (toString jsonBody.length).toList)] ++ accessHeaders origin
  body := jsonBody

/-- The head that an `SSEWriter` writes before the events. -/
def streamResponse (httpStatus : Nat × String) (origin : Text) : Http.Message where
  startLine := statusLine httpStatus
  headers :=
    [("Content-Type".toList, "text/event-stream".toList),
      ("Cache-Control".toList, "no-cache".toList),
      ("Connection".toList, "keep-alive".toList)] ++ accessHeaders origin

/-! ## The writers -/

structure SocketWriter where
  origin : Text := ['*']
  buffer : Bool := false
  jsonBody : Text := []

namespace SocketWriter

/-- A message is added to the body that is written later. -/
def addJson (w : SocketWriter) (json : Text) : SocketWriter :=
  { w with jsonBody := if w.jsonBody = [] then json else w.jsonBody ++ ',' :: json }

/-- The messages of a buffered response are an array. -/
def wrap (jsonBody : Text) : Text :=
  "\x7b\"data\":[".toList ++ jsonBody ++ "]\x7d".toList

/-- The response is written; an error has no body. -/
def respond (w : SocketWriter) (httpStatus : Nat × String) : Text × SocketWriter :=
  let jsonBody := if 300 ≤ httpStatus.1 then [] else w.jsonBody
  let jsonBody := if w.buffer ∧ jsonBody ≠ [] then wrap jsonBody else jsonBody
  ((unaryResponse httpStatus w.origin jsonBody).text, { w with jsonBody })

/-- `SocketWriter::sendResponse`: what is written to the socket. -/
def sendResponse (print : Printer) (w : SocketWriter) (err : StatusCode) (msg : Message) :
    Text × SocketWriter :=
  let httpStatus := codeMap err
  if httpStatus.1 < 300 ∧ !msg.isEmpty then
    match print msg with
    | .error jsonOutput =>
        if !w.buffer ∨ jsonOutput = [] then w.respond (codeMap .invalidArgument) else ([], w)
    | .ok jsonOutput =>
        let w := w.addJson jsonOutput.1
        if w.buffer then ([], w) else w.respond httpStatus
  else w.respond httpStatus

end SocketWriter

structure SSEWriter where
  origin : Text := ['*']
  headersSent : Bool := false

namespace SSEWriter

/-- The head is written once, and then an event if there is data. -/
def respond (w : SSEWriter) (httpStatus : Nat × String) (jsonOutput : Text) : Text × SSEWriter :=
  let head := if w.headersSent then [] else (streamResponse httpStatus w.origin).text
  let event := if httpStatus.1 < 300 ∧ jsonOutput ≠ [] then EventStream.event jsonOutput else []
  (head ++ event, { w with headersSent := true })

/-- `SSEWriter::sendResponse`. -/
def sendResponse (print : Printer) (w : SSEWriter) (err : StatusCode) (msg : Message) :
    Text × SSEWriter :=
  if msg.isEmpty then w.respond (codeMap err) []
  else
    match print msg with
    | .error _ => w.respond (codeMap .invalidArgument) []
    | .ok jsonOutput => w.respond (codeMap err) jsonOutput.1

end SSEWriter

/-- `ISocketWriter`. -/
inductive Writer where
  | socket (w : SocketWriter)
  | sse (w : SSEWriter)

namespace Writer

def sendResponse (print : Printer) (err : StatusCode) (msg : Message) : Writer → Text × Writer
  | .socket w => (w.sendResponse print err msg).map id .socket
  | .sse w => (w.sendResponse print err msg).map id .sse

/-- The writer of a request that may be answered by a stream. -/
def ofStream (stream : Bool) (origin : Text) : Writer :=
  if stream then .sse { origin } else .socket { origin, buffer := true }

end Writer

end Catena.Rest
