import Catena.Grpc.Devices
import Catena.Rest.Answers

/-!
# The devices under concurrent requests

Only the sections of `SetValue` and `MultiSetValue` change the values of a device, and they do it
for the client of the request. So what every valid entry keeps holds of a device in every state of
the server, as over gRPC.
-/

namespace Catena.Rest

open Store Rpc Grpc Framework

variable {cfg : Config} {P : Action → Prop} {writer : Writer}

theorem acts_finish (rc : StatusCode) (msg : Message) (writer : Writer) :
    (finish cfg rc msg writer).Acts P :=
  trivial

theorem acts_withDevice {a : Action} {slot : Nat} {rest : World → ServedDevice → Code} (ha : P a)
    (hrest : ∀ w d, (rest w d).Acts P) : (withDevice a slot rest).Acts P := by
  refine ⟨ha, fun w => ?_⟩
  change ((w.devices slot).elim .abort (rest w)).Acts P
  cases w.devices slot with
  | none => exact trivial
  | some d => exact hrest w d

theorem acts_attempt {α : Type} {result : Except ExceptionWithStatus α} {rest : α → Code}
    (hrest : ∀ a, result = .ok a → (rest a).Acts P) : (attempt cfg writer result rest).Acts P := by
  cases result with
  | error rc => exact trivial
  | ok a => exact hrest a rfl

namespace Task

def Acts (P : Action → Prop) : Task → Prop
  | .respond _ => True
  | .inSection a _ => P a

theorem Acts.code {task : Task} (h : task.Acts P) : (task.code cfg writer).Acts P := by
  cases task with
  | respond answer => exact trivial
  | inSection a answer =>
    refine ⟨h, fun w => ?_⟩
    change ((answer w).elim .abort fun r => finish cfg r.1 r.2 writer).Acts P
    cases answer w <;> exact trivial

theorem acts_attempt {α : Type} {ans : Message} {result : Except ExceptionWithStatus α}
    {rest : α → Task} (hrest : ∀ a, result = .ok a → (rest a).Acts P) :
    (attempt ans result rest).Acts P := by
  cases result with
  | error rc => exact trivial
  | ok a => exact hrest a rfl

end Task

/-! ## The controllers -/

variable (r : Request)

theorem byClient_write {decoded : Authorizer × Nat} (h : cfg.readToken r = .ok decoded)
    (slot : Nat) (call : Call) (hcall : call.authz = decoded.1) :
    ByClient cfg.toConfig (.write slot call) := by
  intro slot' call' ha
  cases ha
  refine ⟨bearer r, decoded.2, ?_⟩
  rw [authorizer_bearer, hcall]
  exact h

theorem acts_multiSetValue (toMulti : Option (List SetValuePayload)) :
    (MultiSetValue.proceed cfg r toMulti).Acts (ByClient cfg.toConfig) := by
  refine Task.acts_attempt fun _ _ => ?_
  cases toMulti with
  | none => exact trivial
  | some values =>
    exact Task.acts_attempt fun decoded h => byClient_write r h _ _ rfl

theorem acts_languages : (Languages.task cfg r).Acts (ByClient cfg.toConfig) := by
  refine Task.acts_attempt fun _ _ => ?_
  split
  · exact byClient_look
  · exact trivial

namespace LanguagePack

theorem acts_put (languageId : String) (authz : Authorizer) :
    (put cfg r languageId authz).Acts (ByClient cfg.toConfig) := by
  unfold put
  split
  · exact trivial
  · exact byClient_of_ne fun _ _ h => by cases h

theorem acts_perform (languageId : String) (authz : Authorizer) :
    (perform cfg r languageId authz).Acts (ByClient cfg.toConfig) := by
  unfold perform
  split
  · exact byClient_look
  · exact acts_put r languageId authz
  · exact acts_put r languageId authz
  · exact byClient_of_ne fun _ _ h => by cases h
  · exact trivial

theorem acts_task : (task cfg r).Acts (ByClient cfg.toConfig) := by
  unfold task
  split
  · exact trivial
  · split
    · exact trivial
    · refine Task.acts_attempt fun decoded _ => ?_
      split
      · exact trivial
      · exact acts_perform r _ decoded.1

end LanguagePack

namespace DeviceRequest

theorem acts_stream (slot : Nat) (authz : Authorizer) (serializer : Coroutine DeviceKey DeviceKey)
    (writer : Writer) :
    (stream cfg slot authz serializer writer).Acts (ByClient cfg.toConfig) := by
  induction serializer generalizing writer with
  | ret key => exact acts_withDevice byClient_look fun _ _ => trivial
  | yield key serializer ih => exact acts_withDevice byClient_look fun _ _ => ih _

theorem acts_start (authz : Authorizer) (subscribedOids : List String) :
    (start cfg r authz writer subscribedOids).Acts (ByClient cfg.toConfig) := by
  refine acts_withDevice byClient_look fun _ d => ?_
  refine acts_attempt fun serializer _ => ?_
  cases hbody : serializer.body with
  | none => exact acts_finish _ _ _
  | some body => exact acts_stream _ authz body writer

theorem acts_proceed : (proceed cfg r writer).Acts (ByClient cfg.toConfig) := by
  refine acts_attempt fun _ _ => acts_attempt fun decoded _ => ?_
  split
  · exact acts_withDevice byClient_look fun _ _ => acts_start r decoded.1 _
  · exact acts_start r decoded.1 []

end DeviceRequest

namespace ExecuteCommand

theorem acts_unlessExpired {exp : Nat} {rest : Code} (h : rest.Acts (ByClient cfg.toConfig)) :
    (unlessExpired cfg exp writer rest).Acts (ByClient cfg.toConfig) := by
  refine ⟨byClient_look, fun w => ?_⟩
  dsimp only
  split
  · exact trivial
  · exact h

theorem acts_tell {respond : Bool} {response : CommandResponse} {rest : Writer → Code}
    (h : ∀ writer, (rest writer).Acts P) : (tell cfg respond response writer rest).Acts P := by
  unfold tell
  split
  · exact h _
  · exact h writer

theorem acts_resume (exp : Nat) (respond : Bool) (responder : Responder) (writer : Writer) :
    (resume cfg exp respond responder writer).Acts (ByClient cfg.toConfig) := by
  induction responder generalizing writer with
  | run effect rest ih => exact ⟨byClient_of_ne fun _ _ h => (by cases h), fun w => ih w writer⟩
  | yield response rest ih => exact acts_tell fun writer => acts_unlessExpired (ih writer)
  | ret response => exact acts_tell fun writer => acts_finish _ _ writer
  | throw why => exact acts_finish _ _ writer

theorem acts_execute (value : Value) (respond : Bool) (decoded : Authorizer × Nat)
    (command : String × Node) :
    (execute cfg r value respond decoded command writer).Acts (ByClient cfg.toConfig) := by
  unfold execute
  split
  · exact trivial
  · split
    · exact trivial
    · exact trivial
    · exact acts_unlessExpired (acts_resume _ _ _ writer)

theorem acts_proceed : (proceed cfg r writer).Acts (ByClient cfg.toConfig) := by
  refine acts_attempt fun _ _ => ?_
  split
  · exact trivial
  · refine acts_attempt fun decoded _ => acts_withDevice byClient_look fun _ d => ?_
    split
    · exact trivial
    · exact acts_attempt fun command _ => acts_execute r _ _ decoded command

end ExecuteCommand

namespace Subscriptions

theorem acts_list (slot : Nat) (authz : Authorizer) (oids : List String) (writer : Writer) :
    (list cfg slot authz oids writer).Acts (ByClient cfg.toConfig) := by
  induction oids generalizing writer with
  | nil => exact acts_finish _ _ writer
  | cons oid oids ih =>
    refine acts_withDevice byClient_look fun _ d => ?_
    cases listing d.device d.values authz authz oid with
    | none => exact ih writer
    | some listed => exact ih _

theorem acts_add {slot : Nat} {authz : Authorizer} {rest : Code}
    (h : rest.Acts (ByClient cfg.toConfig)) (oids : List String) :
    (add cfg slot authz writer rest oids).Acts (ByClient cfg.toConfig) := by
  induction oids with
  | nil => exact h
  | cons oid oids ih =>
    refine acts_withDevice (byClient_addSubscription slot oid authz) fun w d => ?_
    unfold afterAdding
    split
    · exact trivial
    · exact trivial
    · exact trivial
    · exact ih

theorem acts_remove {slot : Nat} {rest : Code} (h : rest.Acts (ByClient cfg.toConfig))
    (oids : List String) : (remove slot rest oids).Acts (ByClient cfg.toConfig) := by
  induction oids with
  | nil => exact h
  | cons oid oids ih => exact ⟨byClient_removeSubscription slot oid, fun _ => ih⟩

theorem acts_proceed : (proceed cfg r writer).Acts (ByClient cfg.toConfig) := by
  refine acts_attempt fun _ _ => acts_withDevice byClient_look fun _ d => ?_
  split
  · exact trivial
  · refine acts_attempt fun decoded _ => ?_
    split
    · exact acts_withDevice byClient_look fun _ _ => acts_list _ decoded.1 _ writer
    · unfold update
      split
      · exact trivial
      · exact acts_add (acts_remove (acts_finish _ _ writer) _) _
    · exact trivial

end Subscriptions

/-! ## The server -/

/-- The controllers that are not modelled here make no write that is not a client's. -/
def Config.OthersByClient (cfg : Config) : Prop :=
  ∀ r, (cfg.others r).Acts (ByClient cfg.toConfig)

theorem Product.acts_proceed (hothers : cfg.OthersByClient) (product : Product) :
    (product.proceed cfg r).Acts (ByClient cfg.toConfig) := by
  cases product with
  | getPopulatedSlots => exact trivial
  | getValue =>
    exact Task.Acts.code (Task.acts_attempt fun _ _ => Task.acts_attempt fun _ _ => byClient_look)
  | multiSetValue => exact (acts_multiSetValue r _).code
  | setValue => exact (acts_multiSetValue r _).code
  | getParam =>
    exact Task.Acts.code (Task.acts_attempt fun _ _ => Task.acts_attempt fun _ _ => byClient_look)
  | languagePack => exact (LanguagePack.acts_task r).code
  | languages => exact (acts_languages r).code
  | deviceRequest => exact DeviceRequest.acts_proceed r
  | executeCommand => exact ExecuteCommand.acts_proceed r
  | subscriptions => exact Subscriptions.acts_proceed r
  | connect => exact hothers r
  | assetRequest => exact hothers r
  | paramInfoRequest => exact hothers r

theorem acts_serve (hothers : cfg.OthersByClient) (peer : Peer) :
    (serve cfg peer).Acts (ByClient cfg.toConfig) := by
  unfold serve
  split
  · exact trivial
  · rename_i r _
    unfold handle
    split
    · exact trivial
    · split
      · exact trivial
      · split
        · rename_i product _
          exact product.acts_proceed r hothers
        · exact trivial

theorem valuesHold_of_reaches (hothers : cfg.OthersByClient) {world : World}
    {s : Handlers.State World Action Text Peer} (h : (server cfg).Reaches world s)
    (hlog : OnlyCalls s.log) {slot : Nat} {d : Device} {R : d.State → Prop}
    (happly : ∀ authorization authz exp, cfg.toConfig.authorizer authorization = .ok (authz, exp) →
      ∀ path src s₁ s₂, d.ValidEntry authz path src → d.apply path src s₁ = some ((), s₂) →
        R s₁ → R s₂)
    (hstart : world.ValuesHold slot d R) : s.world.ValuesHold slot d R := by
  have hrefuse (peer : Peer) : ((server cfg).refuse peer).Acts (ByClient cfg.toConfig) := trivial
  have hclient : ∀ e ∈ s.log, ByClient cfg.toConfig e.2 :=
    hlog.all fun j a ha =>
      Handlers.Server.acts_of_reaches (acts_serve hothers) hrefuse h ha
  rw [(Handlers.Server.recorded_of_reaches h).current]
  exact World.valuesHold_after happly hlog hclient hstart

section Example

def intJson (i : Int32) : Text :=
  "\x7b\"int32Value\":".toList ++ (toString i).toList ++ "\x7d".toList

/-- A service without authorization, with the JSON of the integers that are sent. -/
def statusService : Config := { panelService with
  toConfig := statusConfig
  parseValue body := ([7, 99].find? fun i => body = intJson i).map .int32Value }

def setPeer (fqoid : String) (i : Int32) : Peer where
  arrival :=
    ⟨"PUT /st2138-api/v1.0/1/value".toList ++ fqoid.toList ++
      " HTTP/1.1\r\nContent-Type: application/json\r\nContent-Length: ".toList ++
      (toString (intJson i).length).toList ++ "\r\n\r\n".toList ++ intJson i, [], .failed⟩

/-- A client connects, sets a value and is answered. -/
def setRun (peer : Peer) : List (Handlers.Event Action Peer) :=
  List.replicate 4 (.main peer) ++ List.replicate 4 (.run 0 false)

def afterSet (world : World) (peer : Peer) : Handlers.State World Action Text Peer :=
  (replay (server statusService).step (setRun peer) { world }).getD { world }

def afterMode : Handlers.State World Action Text Peer :=
  afterSet statusWorld (setPeer "/status/mode" 7)

def afterGainAppend : Handlers.State World Action Text Peer :=
  afterSet gainWorld (setPeer "/gain/-" 99)

theorem reaches_afterSet {world : World} {peer : Peer}
    (h : (replay (server statusService).step (setRun peer) { world }).isSome = true) :
    (server statusService).Reaches world (afterSet world peer) :=
  Handlers.Server.reaches_getD h

def isCall : Option Nat × Action → Bool
  | (some _, .write _ _) => true
  | _ => false

theorem onlyCalls_of_all {log : List (Option Nat × Action)} (h : log.all isCall = true) :
    OnlyCalls log := by
  intro e he
  have hcall := List.all_eq_true.mp h e he
  obtain ⟨j, a⟩ := e
  unfold isCall at hcall
  split at hcall
  · rename_i hentry
    cases hentry
    exact ⟨rfl, fun effect ha => (by cases ha)⟩
  · cases hcall

end Example

/-- A leaf that no client who is let in may write keeps its value, however the requests of all
clients interleave. -/
theorem requests_leave_unchanged (cfg : Config) (hothers : cfg.OthersByClient) {world : World}
    {s : Handlers.State World Action Text Peer} (h : (server cfg).Reaches world s)
    (hlog : OnlyCalls s.log) {slot : Nat} {d : Device} {values : d.State}
    (hstart : world.valuesAt slot = some ⟨d, values⟩) :
    ∃ values', s.world.valuesAt slot = some ⟨d, values'⟩ ∧
      LeavesKept cfg.toConfig d values values' := by
  refine valuesHold_of_reaches hothers h hlog ?_ ⟨values, hstart, fun _ _ hn _ _ => hn⟩
  intro authorization authz exp hauthz path src s₁ s₂ hvalid happly hs
  exact leavesKept_of_apply hauthz hvalid happly hs

theorem requests_leave_unchanged_mode :
    ∃ values', afterMode.world.valuesAt 1 = some ⟨statusDevice, values'⟩ ∧
      LeavesKept statusService.toConfig statusDevice (((5 : Int32), (6 : Int32), ()), ())
        values' :=
  requests_leave_unchanged statusService (fun _ => trivial) (reaches_afterSet (by decide +kernel))
    (onlyCalls_of_all (by decide +kernel)) rfl

/-- Choices and ranges hold of every value of a device, however the requests of all clients
interleave. -/
theorem requests_respectConstraint (cfg : Config) (hothers : cfg.OthersByClient) {world : World}
    {s : Handlers.State World Action Text Peer} (h : (server cfg).Reaches world s)
    (hlog : OnlyCalls s.log) {slot : Nat} {d : Device}
    (hranges : ∀ path t pd, d.descend path = some (t, pd) → pd.SaneRange) {values : d.State}
    (hstart : world.valuesAt slot = some ⟨d, values⟩)
    (hvalues : d.Holds RespectsConstraint values) :
    ∃ values', s.world.valuesAt slot = some ⟨d, values'⟩ ∧
      d.Holds RespectsConstraint values' := by
  refine valuesHold_of_reaches hothers h hlog ?_ ⟨values, hstart, hvalues⟩
  intro authorization authz exp _ path src s₁ s₂ hvalid happly hs
  exact respectsConstraint_of_apply hranges hvalid happly hs

theorem requests_respectConstraint_gain :
    ∃ values', afterGainAppend.world.valuesAt 1 = some ⟨gainDevice, values'⟩ ∧
      gainDevice.Holds RespectsConstraint values' :=
  requests_respectConstraint statusService (fun _ => trivial)
    (reaches_afterSet (by decide +kernel)) (onlyCalls_of_all (by decide +kernel))
    (fun _ _ _ hd => gainDevice_saneRange hd) rfl respectsConstraint_noGain

end Catena.Rest
