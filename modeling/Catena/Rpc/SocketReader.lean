import Mathlib.Data.List.DropRight
import Mathlib.Data.List.Infix
import Catena.Framework.Map
import Catena.Framework.Throws
import Catena.Rpc.PushUpdates
import Catena.Rpc.Routing

/-!
# Reading REST requests

`SocketReader::read` takes the header lines from the buffer that the socket filled until it held
a blank line, and with them whatever of the body came along. The rest of the body is read by its
length. Where the body was cut does not matter, nor do the order of the headers and the letter
case of their names, but any `Content-Type` has to be the JSON one, also without a body.
-/

namespace Catena.Rpc

open Store Catena.Framework

/-- What `SocketReader::read` can throw: its own exceptions, that of `url_view`, and that of a
string that would get too long. -/
inductive ReadFailure where
  | withStatus (why : ExceptionWithStatus)
  | systemError
  | lengthError
  deriving DecidableEq

/-- Why no more bytes can be read. -/
inductive SocketEnd where
  | timedOut
  | failed
  deriving DecidableEq

def SocketEnd.error : SocketEnd → ReadFailure
  | .timedOut => .withStatus ⟨"Timed out", .deadlineExceeded⟩
  | .failed => .withStatus ⟨"Read error", .unknown⟩

/-- The bytes of a request: those in the buffer when the first read returns, and those that can
be read after them. -/
structure Arrival where
  received : Text
  later : Text
  ending : SocketEnd

/-- `read_until_with_timeout`. -/
def Arrival.readUntil (arrival : Arrival) (delim : Text) : Except ReadFailure Text :=
  if delim <:+: arrival.received then .ok arrival.received else .error arrival.ending.error

/-- `read_with_timeout`. -/
def Arrival.read (arrival : Arrival) (bytes : Nat) : Except ReadFailure Text :=
  if bytes ≤ arrival.later.length then .ok (arrival.later.take bytes)
  else .error arrival.ending.error

/-- What the reader knows of its service, and `url_view`: the decoded path of a URL and its encoded
parameters, `none` if it throws. -/
structure Service where
  version : Text
  authorizationEnabled : Bool
  urlView : Text → Option (Text × List (Text × Text))

/-- The members of a `SocketReader` after a read. -/
structure SocketReader.Request extends SocketReader where
  method : RESTMethod
  fields : List (Text × Text)
  origin : Text
  detailLevel : DetailLevel
  jwsToken : Text
  jsonBody : Text
  requestStart : Int
  requestReceived : Int

/-! ## The request line -/

/-- `std::getline`, `none` at the end of the stream. -/
def getline : Text → Option (Text × Text)
  | [] => none
  | c :: text =>
      some ((c :: text).takeWhile (· ≠ '\n'), ((c :: text).dropWhile (· ≠ '\n')).tail)

/-- What `>>` takes from a stream, word by word. -/
def words (text : Text) : List Text := (text.splitOnP isSpace).filter (· ≠ [])

/-- The reverse map of `RESTMethodMap`. -/
def RESTMethodMap : List (Text × RESTMethod) :=
  [("NONE".toList, .none), ("GET".toList, .get), ("POST".toList, .post), ("PUT".toList, .put),
    ("PATCH".toList, .patch), ("DELETE".toList, .delete), ("HEAD".toList, .head),
    ("OPTIONS".toList, .options)]

/-- The first line: the method, what the path determines and the parameters of the URL. -/
def readRequestLine (service : Service) (header : Text) :
    Except ReadFailure (RESTMethod × SocketReader × List (Text × Text)) :=
  let method := (RESTMethodMap.lookup ((words header)[0]?.getD [])).getD .none
  match service.urlView ((words header)[1]?.getD []) with
  | none => .error .systemError
  | some (path, params) =>
      match SocketReader.readUrl service.version path with
      | none => .error (.withStatus ⟨"Invalid URL", .invalidArgument⟩)
      | some reader => .ok (method, reader, params)

/-! ## The headers -/

def foldsTo (ca cb : Char) : Bool :=
  ca = cb || ('A' ≤ ca && ca ≤ 'Z' && Char.ofNat (ca.toNat ||| 0x20) = cb)

/-- `iequals_header_name`, where `b` is in lower case. -/
def iequalsHeaderName (a b : Text) : Bool :=
  a.length = b.length && (a.zip b).all fun (ca, cb) => foldsTo ca cb

/-- `valid_content_type`. -/
def validContentType (s contentType : Text) : Bool :=
  contentType.length ≤ s.length && ((s.zip contentType).all fun (cs, c) => foldsTo cs c) &&
    (s.length = contentType.length || s[contentType.length]? = some ';')

def isBlank (c : Char) : Bool := c = ' ' || c = '\t'

/-- The value without the blanks around it and the CR behind it. -/
def trim (value : Text) : Text :=
  (value.dropWhile isBlank).rdropWhile fun c => c = '\r' || isBlank c

/-- The name and the value of a header line, `none` if it has no colon. -/
def splitHeader (header : Text) : Option (Text × Text) :=
  match header.span (· ≠ ':') with
  | (_, []) => none
  | (name, _ :: value) => some (name, trim value)

/-- `readTimestamp`. -/
def readTimestamp (value : Text) (dest : Int) : Int :=
  if value.head?.any Char.isDigit then
    let digits := value.takeWhile Char.isDigit
    if Nat.ofDigitChars 10 digits 0 < 2 ^ 63 ∧ digits.length = value.length then
      Nat.ofDigitChars 10 digits 0
    else dest
  else dest

/-- `std::stoi` with the number of characters it used. -/
def stoiProcessed (text : Text) : Option (Int × Nat) :=
  (stoi text).map fun value =>
    let spaces := text.takeWhile isSpace
    let rest := text.dropWhile isSpace
    let sign := if rest.head? = some '-' ∨ rest.head? = some '+' then 1 else 0
    (value, spaces.length + sign + ((rest.drop sign).takeWhile Char.isDigit).length)

/-- The value of a `Content-Length` header, converted to `size_t`. -/
def readContentLength (value : Text) : Except ReadFailure Nat :=
  let invalid := ReadFailure.withStatus ⟨"Invalid Content-Length", .invalidArgument⟩
  if value = [] ∨ value.head? = some '-' then .error invalid
  else
    match stoiProcessed value with
    | none => .error invalid
    | some (number, processed) =>
        if processed < value.length then .error invalid else .ok (number % 2 ^ 64).toNat

/-- The reverse map of `DetailLevel`. -/
def DetailLevel.reverseMap : List (Text × DetailLevel) :=
  [("FULL".toList, .full), ("SUBSCRIPTIONS".toList, .subscriptions), ("MINIMAL".toList, .minimal),
    ("COMMANDS".toList, .commands), ("NONE".toList, .none), ("UNSET".toList, .unset)]

/-- What the header lines determine. -/
structure Headers where
  jwsToken : Text := []
  origin : Text := []
  detailLevel : DetailLevel := .unset
  requestStart : Int := 0
  contentLength : Nat := 0
  hasContentType : Bool := false

def kBearerPrefix : Text := "Bearer ".toList

/-- One turn of the loop over the header lines. -/
def readHeader (authorizationEnabled : Bool) (seen : Headers) (header : Text) :
    Except ReadFailure Headers :=
  match splitHeader header with
  | none => .ok seen
  | some (name, value) =>
      if authorizationEnabled ∧ seen.jwsToken = [] ∧
          iequalsHeaderName name "authorization".toList then
        .ok (if kBearerPrefix <+: value then
          { seen with jwsToken := value.drop kBearerPrefix.length } else seen)
      else if seen.origin = [] ∧ iequalsHeaderName name "origin".toList then
        .ok { seen with origin := value }
      else if seen.detailLevel = .unset ∧ iequalsHeaderName name "detail-level".toList then
        .ok { seen with detailLevel := (DetailLevel.reverseMap.lookup value).getD .unset }
      else if seen.requestStart = 0 ∧ iequalsHeaderName name "request-start".toList then
        .ok { seen with requestStart := readTimestamp value seen.requestStart }
      else if seen.contentLength = 0 ∧ iequalsHeaderName name "content-length".toList then do
        let contentLength ← readContentLength value
        return { seen with contentLength }
      else if iequalsHeaderName name "content-type".toList then
        if validContentType value "application/json".toList then
          .ok { seen with hasContentType := true }
        else .error (.withStatus ⟨"Invalid Content-Type", .invalidArgument⟩)
      else .ok seen

theorem length_getline {text header rest : Text} (h : getline text = some (header, rest)) :
    rest.length < text.length := by
  cases text with
  | nil => cases h
  | cons c text =>
    obtain ⟨-, rfl⟩ := Prod.mk.inj (Option.some.inj h)
    have hle := (List.dropWhile_suffix (l := c :: text) (· ≠ '\n')).length_le
    rw [List.length_tail]
    rw [List.length_cons] at hle ⊢
    omega

/-- The loop over the header lines, up to the blank line. It leaves what lies behind it. -/
def readHeaders (authorizationEnabled : Bool) (seen : Headers) (stream : Text) :
    Except ReadFailure (Headers × Text) :=
  match _h : getline stream with
  | none => .ok (seen, [])
  | some (header, rest) =>
      if header = ['\r'] then .ok (seen, rest)
      else
        match readHeader authorizationEnabled seen header with
        | .error why => .error why
        | .ok seen => readHeaders authorizationEnabled seen rest
termination_by stream.length
decreasing_by exact length_getline _h

/-! ## The body -/

def maxSize : Nat := 2 ^ 63 - 1

/-- The part of the body that came with the headers, and what is missing of it. -/
def readBody (arrival : Arrival) (seen : Headers) (jsonBody : Text) : Except ReadFailure Text :=
  let dataLost := ReadFailure.withStatus ⟨"Incorrect Content-Length: data lost", .dataLoss⟩
  if maxSize < jsonBody.length then .error .lengthError
  else if seen.contentLength ≤ 0 ∧ 0 < jsonBody.length then .error dataLost
  else if 0 < seen.contentLength then
    if !seen.hasContentType then
      .error (.withStatus ⟨"Content-Type missing", .invalidArgument⟩)
    else if jsonBody.length < seen.contentLength then
      match arrival.read (seen.contentLength - jsonBody.length) with
      | .error why => .error why
      | .ok more =>
          if maxSize < (jsonBody ++ more).length then .error .lengthError
          else .ok (jsonBody ++ more)
    else if seen.contentLength < jsonBody.length then .error dataLost
    else .ok jsonBody
  else .ok jsonBody

/-- `SocketReader::read` with the fields that were set before and the time of the clock. -/
def SocketReader.read (service : Service) (fields : List (Text × Text)) (now : Int)
    (arrival : Arrival) : Except ReadFailure SocketReader.Request := do
  let buffer ← arrival.readUntil ['\r', '\n', '\r', '\n']
  let (header, stream) := (getline buffer).getD ([], [])
  let (method, reader, params) ← readRequestLine service header
  let (seen, jsonBody) ← readHeaders service.authorizationEnabled {} stream
  let jsonBody ← readBody arrival seen jsonBody
  return { reader with
    method
    fields := params.foldl (fun fields param => setEntry fields param.1 param.2) fields
    origin := seen.origin
    detailLevel := if seen.detailLevel = .unset then .none else seen.detailLevel
    jwsToken := seen.jwsToken
    jsonBody
    requestStart := seen.requestStart
    requestReceived := now }

end Catena.Rpc
