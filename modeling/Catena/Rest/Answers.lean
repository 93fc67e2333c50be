import Catena.Grpc.Answers
import Catena.Grpc.DeviceStream
import Catena.Rest.Client
import Catena.Rest.Server

/-!
# REST answers and gRPC answers

A REST request that is answered once takes at most one section, and its response is read off the
world that the sections before it have left. Where it asks for what a gRPC call can ask for, both
have the same section, and the response says what the answer of the call says. `GetValue` is not
among these requests: over REST it reads without the mutex of the device.
-/

namespace Catena.Rest

open Store Rpc Grpc Framework

variable (cfg : Config)

def Writer.response (rc : StatusCode) (msg : Message) (writer : Writer) : Text :=
  (writer.sendResponse cfg.print rc msg).1

variable {cfg} {seen : List (Action × World)} {written : List Text}

theorem ends_finish {rc : StatusCode} {msg : Message} {writer : Writer} :
    (finish cfg rc msg writer).Ends seen written ↔
      seen = [] ∧ written = [writer.response cfg rc msg] := by
  rw [finish, send, Handlers.Code.ends_write]
  simp only [Handlers.Code.ends_done]
  constructor
  · rintro ⟨_, rfl, rfl, rfl⟩
    exact ⟨rfl, rfl⟩
  · rintro ⟨rfl, rfl⟩
    exact ⟨[], rfl, rfl, rfl⟩

namespace Task

/-- The answer of a task whose section has found a world. -/
def Gives (task : Task) (seen : List (Action × World)) (r : Answer) : Prop :=
  match task with
  | .respond answer => seen = [] ∧ r = answer
  | .inSection a answer => ∃ w, seen = [(a, w)] ∧ answer w = some r

theorem ends_code {task : Task} {writer : Writer} (h : (task.code cfg writer).Ends seen written) :
    ∃ r, task.Gives seen r ∧ written = [writer.response cfg r.1 r.2] := by
  cases task with
  | respond answer =>
    obtain ⟨hseen, hwritten⟩ := ends_finish.mp h
    exact ⟨answer, ⟨hseen, rfl⟩, hwritten⟩
  | inSection a answer =>
    obtain ⟨w, seen', rfl, hrest⟩ := Handlers.Code.ends_locked.mp h
    cases hanswer : answer w with
    | none =>
      rw [hanswer] at hrest
      exact (Handlers.Code.not_ends_abort hrest).elim
    | some r =>
      rw [hanswer] at hrest
      obtain ⟨rfl, hwritten⟩ := ends_finish.mp hrest
      exact ⟨r, ⟨w, rfl, hanswer⟩, hwritten⟩

end Task

/-! ## The gRPC call that a request stands for -/

/-- The metadata of a gRPC call with the token of a REST request. -/
def bearer (r : Request) : Option String := some ("Bearer " ++ String.ofList r.jwsToken)

theorem startsWith_append (a b : String) : startsWith (a ++ b) a = true := by
  simp [startsWith, String.toList_append]

theorem authorizer_bearer (cfg : Config) (r : Request) :
    cfg.authorizer (bearer r) = cfg.readToken r := by
  have htoken : Grpc.Config.jwsToken (bearer r) = .ok (String.ofList r.jwsToken) := by
    simp only [Grpc.Config.jwsToken, bearer, startsWith_append, if_true]
    have hdrop : ("Bearer ".toList ++ (String.ofList r.jwsToken).toList).drop "Bearer ".length =
        (String.ofList r.jwsToken).toList := List.drop_left' rfl
    rw [String.toList_append, hdrop, String.ofList_toList]
  rw [Grpc.Config.authorizer, Config.readToken, htoken]
  rfl

variable {i : Controller}

/-- The tasks of both services answer alike: at once, or in the same section. -/
def Agrees (R : grpc.Answer i → Answer → Prop) (call : Grpc.Task i) (task : Task) : Prop :=
  match call, task with
  | .respond reply, .respond r => R reply r
  | .inSection a reply, .inSection b r => a = b ∧ ∀ w, Option.Rel R (reply w) (r w)
  | _, _ => False

theorem Agrees.gives {R : grpc.Answer i → Answer → Prop} {call : Grpc.Task i} {task : Task}
    (h : Agrees R call task) {r : Answer} (hr : task.Gives seen r) :
    ∃ reply, call.Gives seen reply ∧ R reply r := by
  cases call with
  | respond reply =>
    cases task with
    | respond answer =>
      obtain ⟨rfl, rfl⟩ := hr
      exact ⟨reply, ⟨rfl, rfl⟩, h⟩
    | inSection a answer => exact h.elim
  | inSection a reply =>
    cases task with
    | respond answer => exact h.elim
    | inSection b answer =>
      obtain ⟨rfl, hrel⟩ := h
      obtain ⟨w, rfl, hw⟩ := hr
      have hw' := hrel w
      rw [hw] at hw'
      generalize hreply : reply w = found at hw'
      cases hw' with
      | some hR => exact ⟨_, ⟨w, rfl, hreply⟩, hR⟩

/-- A REST answer says what the answer of a call says: the message, or an error with the same
number. -/
def Says {α : Type} (message : α → Message) (reply : Except Status α) (r : Answer) : Prop :=
  match reply with
  | .ok ans => r = (.ok, message ans)
  | .error rc => r.1.number = rc.code

/-- As `Says`, but without languages nothing is found. -/
def SaysLanguages (reply : Except Status (List String)) (r : Answer) : Prop :=
  match reply with
  | .ok [] => r.1 = .notFound
  | reply => Says .languageList reply r

theorem says_error {α : Type} {message : α → Message} (rc : ExceptionWithStatus) (msg : Message) :
    Says message (.error (.ofRc rc)) (.ofRc rc, msg) :=
  StatusCode.number_ofRc rc

theorem says_result {α : Type} {message : α → Message} (rc : ExceptionWithStatus) (ans : α) :
    Says message (result rc ans) (.ofRc rc, message ans) := by
  cases hrc : rc.isOk with
  | true =>
    rw [result, if_pos hrc, StatusCode.ofRc_eq_ok.mpr hrc]
    rfl
  | false =>
    rw [result, if_neg (by simp [hrc])]
    exact says_error rc _

section Checks

variable {R : grpc.Answer i → Answer → Prop} {ans : Message}

theorem agrees_atSlot (refused : ExceptionWithStatus → grpc.Answer i) (cfg : Config)
    (hrefused : ∀ rc : ExceptionWithStatus, R (refused rc) (.ofRc rc, ans)) {slot : Nat}
    {call : Grpc.Task i} {task : Task} (h : Agrees R call task) :
    Agrees R (.atSlot refused cfg.toConfig slot call)
      (.attempt ans (cfg.checkSlot slot) fun _ => task) := by
  unfold Grpc.Task.atSlot
  cases hslot : cfg.checkSlot slot with
  | error rc => exact hrefused rc
  | ok _ => exact h

theorem agrees_authorized (refused : ExceptionWithStatus → grpc.Answer i) (cfg : Config)
    (hrefused : ∀ rc : ExceptionWithStatus, R (refused rc) (.ofRc rc, ans)) (r : Request)
    {slot : Nat} {call : Authorizer → Grpc.Task i} {task : Authorizer × Nat → Task}
    (h : ∀ decoded, Agrees R (call decoded.1) (task decoded)) :
    Agrees R (.authorized refused cfg.toConfig slot (bearer r) call)
      (.attempt ans (cfg.checkSlot slot) fun _ =>
        .attempt ans (cfg.readToken r) task) := by
  unfold Grpc.Task.authorized
  apply agrees_atSlot refused cfg hrefused
  rw [authorizer_bearer]
  cases cfg.readToken r with
  | error rc => exact hrefused rc
  | ok decoded => exact h decoded

theorem rel_map {f : ServedDevice → grpc.Answer i} {g : ServedDevice → Answer}
    (h : ∀ d, R (f d) (g d)) (found : Option ServedDevice) :
    Option.Rel R (found.map f) (found.map g) := by
  cases found with
  | none => exact .none
  | some d => exact .some (h d)

theorem rel_bind {f : ServedDevice → Option (grpc.Answer i)} {g : ServedDevice → Option Answer}
    (h : ∀ d, Option.Rel R (f d) (g d)) (found : Option ServedDevice) :
    Option.Rel R (found.bind f) (found.bind g) := by
  cases found with
  | none => exact .none
  | some d => exact h d

end Checks

section Tasks

variable (cfg : Config) (r : Request)

theorem rel_answer {σ : Type} (result : CallResult σ) :
    Option.Rel (Says fun _ : Unit => .empty) (Grpc.MultiSetValue.answer result)
      (MultiSetValue.answer result) := by
  cases result with
  | returned rc s => exact .some (says_result rc ())
  | threw why s =>
    cases why with
    | withStatus why => exact .some (says_error why .empty)
    | outOfRange => exact .some rfl
  | nullDereference s => exact .none

theorem agrees_multiSetValue (values : List SetValuePayload) :
    Agrees (i := .multiSetValue) (Says fun _ => .empty)
      (Grpc.MultiSetValue.task cfg.toConfig ⟨⟨slotOf r, values⟩, bearer r⟩)
      (MultiSetValue.proceed cfg r (some values)) := by
  refine agrees_authorized (i := .multiSetValue) refuse cfg (fun rc => says_error rc _) r ?_
  intro decoded
  exact ⟨rfl, fun w => rel_bind (i := .multiSetValue) (fun d => rel_answer _) _⟩

theorem agrees_setValue (value : Value) : Agrees (i := .setValue) (Says fun _ => .empty)
    (Grpc.SetValue.task cfg.toConfig ⟨⟨slotOf r, ⟨fqoidOf r, value⟩⟩, bearer r⟩)
    (MultiSetValue.proceed cfg r (some [⟨fqoidOf r, value⟩])) := by
  refine agrees_authorized (i := .setValue) refuse cfg (fun rc => says_error rc _) r ?_
  intro decoded
  exact ⟨rfl, fun w => rel_bind (i := .setValue) (fun d => rel_answer _) _⟩

theorem agrees_getParam : Agrees (i := .getParam) (Says .componentParam)
    (Grpc.GetParam.task cfg.toConfig ⟨⟨slotOf r, fqoidOf r⟩, bearer r⟩) (GetParam.task cfg r) := by
  refine agrees_authorized (i := .getParam) refuse cfg (fun rc => says_error rc _) r ?_
  intro decoded
  refine ⟨rfl, fun w => rel_map (i := .getParam) (fun d => ?_) _⟩
  cases d.device.getParamByOid d.values (fqoidOf r) decoded.1 with
  | error rc => exact says_error rc _
  | ok param => exact says_result _ _

theorem agrees_languages (h : r.method = .get) : Agrees (i := .listLanguages) SaysLanguages
    (Grpc.ListLanguages.task cfg.toConfig ⟨slotOf r, none⟩) (Languages.task cfg r) := by
  rw [Languages.task, if_pos h]
  refine agrees_atSlot (i := .listLanguages) refuse cfg ?_ ?_
  · intro rc
    have hsays : Says Message.languageList (.error (.ofRc rc)) (.ofRc rc, .languageList []) :=
      says_error rc _
    exact hsays
  · refine ⟨rfl, fun w => rel_map (i := .listLanguages) (fun d => ?_) _⟩
    by_cases hnone : d.languageList = []
    · simp [SaysLanguages, hnone]
    · simp [SaysLanguages, hnone, Says]

theorem agrees_languagePack (h : r.method = .get) (hfqoid : r.fqoid ≠ []) :
    Agrees (i := .languagePackRequest) (Says .languagePack)
      (Grpc.LanguagePackRequest.task cfg.toConfig
        ⟨⟨slotOf r, String.ofList r.fqoid.tail⟩, none⟩) (LanguagePack.task cfg r) := by
  rw [LanguagePack.task, Grpc.LanguagePackRequest.task, Grpc.Task.atSlot, Grpc.Config.checkSlot,
    if_neg hfqoid, if_pos h]
  have hrefused (rc : ExceptionWithStatus) (msg : Message) :
      Says Message.languagePack (.error (.ofRc rc)) (.ofRc rc, msg) := says_error rc msg
  by_cases hrange : 65535 < slotOf r
  · rw [if_pos hrange, if_pos hrange]
    exact hrefused _ _
  · rw [if_neg hrange, if_neg hrange]
    by_cases hslot : slotOf r ∉ cfg.slots
    · rw [if_pos hslot]
      simp only [Task.attempt, if_pos hslot]
      exact hrefused _ _
    · rw [if_neg hslot]
      simp only [Task.attempt, if_neg hslot, LanguagePack.perform, h]
      refine ⟨rfl, fun w => rel_bind (i := .languagePackRequest) (fun d => ?_) _⟩
      cases d.getLanguagePack (String.ofList r.fqoid.tail) with
      | none => exact .none
      | some found => exact .some (says_result _ _)

end Tasks

/-- The gRPC call that a request stands for, with what their answers have in common. -/
inductive StandsFor (cfg : Config) (r : Request) : Product → (i : Controller) → Grpc.Task i →
    (grpc.Answer i → Answer → Prop) → Prop
  | getPopulatedSlots : StandsFor cfg r .getPopulatedSlots .getPopulatedSlots
      (Grpc.GetPopulatedSlots.task cfg.toConfig) (Says .slotList)
  | multiSetValue (values : List SetValuePayload) (h : cfg.parseValues r.jsonBody = some values) :
      StandsFor cfg r .multiSetValue .multiSetValue
        (Grpc.MultiSetValue.task cfg.toConfig ⟨⟨slotOf r, values⟩, bearer r⟩)
        (Says fun _ => .empty)
  | setValue (value : Value) (h : cfg.parseValue r.jsonBody = some value) :
      StandsFor cfg r .setValue .setValue
        (Grpc.SetValue.task cfg.toConfig ⟨⟨slotOf r, ⟨fqoidOf r, value⟩⟩, bearer r⟩)
        (Says fun _ => .empty)
  | getParam : StandsFor cfg r .getParam .getParam
      (Grpc.GetParam.task cfg.toConfig ⟨⟨slotOf r, fqoidOf r⟩, bearer r⟩) (Says .componentParam)
  | languages (h : r.method = .get) : StandsFor cfg r .languages .listLanguages
      (Grpc.ListLanguages.task cfg.toConfig ⟨slotOf r, none⟩) SaysLanguages
  | languagePack (h : r.method = .get) (hfqoid : r.fqoid ≠ []) :
      StandsFor cfg r .languagePack .languagePackRequest
        (Grpc.LanguagePackRequest.task cfg.toConfig
          ⟨⟨slotOf r, String.ofList r.fqoid.tail⟩, none⟩) (Says .languagePack)

theorem StandsFor.agrees {cfg : Config} {r : Request} {product : Product} {call : Grpc.Task i}
    {R : grpc.Answer i → Answer → Prop} (h : StandsFor cfg r product i call R) :
    ∃ task, Agrees R call task ∧ product.proceed cfg r = task.code cfg (unaryWriter r) := by
  cases h with
  | getPopulatedSlots =>
    have hslots : Agrees (i := .getPopulatedSlots) (Says .slotList)
      (Grpc.GetPopulatedSlots.task cfg.toConfig) (GetPopulatedSlots.task cfg) := rfl
    exact ⟨_, hslots, rfl⟩
  | multiSetValue values h =>
    refine ⟨_, agrees_multiSetValue cfg r values, ?_⟩
    rw [← h]
    rfl
  | setValue value h =>
    refine ⟨_, agrees_setValue cfg r value, ?_⟩
    rw [Product.proceed, SetValue.task, h]
    rfl
  | getParam => exact ⟨_, agrees_getParam cfg r, rfl⟩
  | languages h => exact ⟨_, agrees_languages cfg r h, rfl⟩
  | languagePack h hfqoid => exact ⟨_, agrees_languagePack cfg r h hfqoid, rfl⟩

/-! ## The response -/

theorem handle_of_lookup {cfg : Config} {r : Request} {product : Product}
    (h : router.lookup (requestKey r) = some product) :
    handle cfg r = product.proceed cfg r := by
  have hkeys : ∀ e ∈ router, e.1.toList.head? ≠ some 'O' ∧ e.1 ≠ "GET/health" := by decide
  obtain ⟨hoptions, hhealth⟩ := hkeys _ (mem_of_lookup h)
  have hmethod : r.method ≠ .options := by
    intro hmethod
    apply hoptions
    simp [requestKey, hmethod, methodName]
  have hendpoint : ¬(r.method = .get ∧ r.endpoint = "/health".toList) := by
    rintro ⟨hget, hendpoint⟩
    apply hhealth
    simp only [requestKey, hget, hendpoint, methodName]
    decide
  rw [handle, if_neg hmethod, if_neg hendpoint, h]

theorem code_of_lookup {cfg : Config} {t : Handlers.Thread World Action Text Peer}
    (hrefused : t.refused = false) {r : Request} (hread : cfg.read t.conn = .ok r)
    {product : Product} (h : router.lookup (requestKey r) = some product) :
    (server cfg).code t = product.proceed cfg r := by
  simp only [Handlers.Server.code, hrefused, Bool.false_eq_true, if_false, server, serve, hread,
    handle_of_lookup h]

/-- The status that is sent for an answer, and the body. A message that cannot be printed is an
error. -/
def printed (cfg : Config) (a : Answer) : StatusCode × Text :=
  if (codeMap a.1).1 < 300 ∧ !a.2.isEmpty then
    match cfg.print a.2 with
    | .error _ => (.invalidArgument, [])
    | .ok json => (a.1, json.1)
  else (a.1, [])

/-- The response to a request that is answered once. -/
def unaryReply (cfg : Config) (r : Request) (a : Answer) : Http.Message :=
  unaryResponse (codeMap (printed cfg a).1) r.origin (printed cfg a).2

theorem response_unaryWriter (cfg : Config) (r : Request) (a : Answer) :
    (unaryWriter r).response cfg a.1 a.2 = (unaryReply cfg r a).text := by
  simp only [Writer.response, unaryWriter, Writer.sendResponse, SocketWriter.sendResponse,
    unaryReply, printed, Prod.map_fst, id_eq]
  split
  · rename_i hsent
    cases hprint : cfg.print a.2 with
    | error jsonOutput => simp [SocketWriter.respond, codeMap]
    | ok json =>
      have hok : ¬300 ≤ (codeMap a.1).1 := Nat.not_le.mpr hsent.1
      simp [SocketWriter.respond, SocketWriter.addJson, hok]
  · simp [SocketWriter.respond]

/-- What the client of an unbroken connection reads. -/
def Answered (cfg : Config) (seen : List (Action × World))
    (t : Handlers.Thread World Action Text Peer) : Prop :=
  t.stage = .ended → t.refused = false → t.broken = false →
    ∀ r product i call R, cfg.read t.conn = .ok r →
      router.lookup (requestKey r) = some product → StandsFor cfg r product i call R →
        ∃ reply a, call.Gives seen reply ∧ R reply a ∧
          Http.read t.written.flatten = { messages := [unaryReply cfg r a] }

section Example

def json (text : Text) : Except Text JsonText :=
  if h : text ≠ [] ∧ '\n' ∉ text ∧ '\r' ∉ text then .ok ⟨text, h⟩ else .error text

/-- The JSON of an integer parameter, without the members that have their defaults. -/
def paramJson : ComponentParam → Text
  | ⟨oid, .mk (some (.int32Value i)) _ _ _ _ minimalSet _ _ _ _ _ _ _⟩ =>
      "\x7b\"oid\":\"".toList ++ oid.toList ++
        "\",\"param\":\x7b\"type\":\"INT32\",\"value\":\x7b\"int32Value\":".toList ++
        (toString i).toList ++ "\x7d".toList ++
        (if minimalSet then ",\"minimalSet\":true".toList else []) ++ "\x7d\x7d".toList
  | _ => []

/-- The panel over HTTP, with the JSON of its parameters. -/
def panelService : Config := { panelConfig with
  version := "v1.0".toList
  urlView url := some (url, [])
  print
    | .componentParam param => json (paramJson param)
    | _ => .error []
  parseValue _ := none
  parseValues _ := none
  parseLanguagePack _ := none
  parseUpdates _ := none
  others _ := .done }

def gainPeer : Peer where
  arrival :=
    ⟨"GET /st2138-api/v1.0/1/param/gain HTTP/1.1\r\nOrigin: panel\r\n\r\n".toList, [], .failed⟩

def gainRun : List (Handlers.Event Action Peer) :=
  List.replicate 4 (.main gainPeer) ++ List.replicate 4 (.run 0 false)

def afterGain : Handlers.State World Action Text Peer :=
  (replay (server panelService).step gainRun { world := panelWorld }).getD { world := panelWorld }

theorem reaches_afterGain : (server panelService).Reaches panelWorld afterGain :=
  Handlers.Server.reaches_getD (by decide +kernel)

theorem thread_afterGain : (afterGain.threads[0]?).isSome = true := by decide +kernel

end Example

end Catena.Rest
