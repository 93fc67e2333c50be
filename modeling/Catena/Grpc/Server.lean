import Catena.Framework.Drain
import Catena.Grpc.Streams

/-!
# The server

The objects of the controllers on the completion queue of the service. The life of every object
follows the discipline of a completion queue, so that the service answers each request at most
once, always waits for the next one, uses no object it has deleted, and drains when it is shut
down.
-/

namespace Catena.Grpc

open Store Rpc Framework Framework.Completion

def unary {i : Controller} (enter : CallStatus → grpc.State i) (illegal : grpc.Answer i)
    (task : Task i) (x : CallStatus) (ok : Bool) : Code grpc i :=
  turn enter x ok illegal (task.code enter) (finish enter illegal) (finish enter illegal)

/-- A request that has not been filled in. -/
def blank : (i : Controller) → i.Request
  | .getPopulatedSlots => ⟨(), none⟩
  | .getValue | .getParam | .externalObjectRequest => ⟨⟨0, ""⟩, none⟩
  | .setValue => ⟨⟨0, "", .kindNotSet⟩, none⟩
  | .multiSetValue => ⟨⟨0, []⟩, none⟩
  | .deviceRequest => ⟨⟨0, .full, []⟩, none⟩
  | .executeCommand => ⟨⟨0, "", .kindNotSet, false⟩, none⟩
  | .addLanguage => ⟨⟨0, "", {}⟩, none⟩
  | .listLanguages => ⟨0, none⟩
  | .languagePackRequest => ⟨⟨0, ""⟩, none⟩
  | .updateSubscriptions => ⟨⟨0, [], []⟩, none⟩

def fresh : (i : Controller) → i.State
  | .deviceRequest => { status := .kCreate }
  | .executeCommand => { status := .kCreate }
  | .updateSubscriptions => { status := .kCreate }
  | .getPopulatedSlots | .getValue | .setValue | .multiSetValue | .externalObjectRequest
  | .getParam | .addLanguage | .listLanguages | .languagePackRequest => CallStatus.kCreate

def proceed (cfg : Config) : (i : Controller) → i.Request → i.State → Bool → Code grpc i
  | .getPopulatedSlots, _, x, ok => unary id (.error illegalState) (GetPopulatedSlots.task cfg) x ok
  | .getValue, q, x, ok => unary id (.error illegalState) (GetValue.task cfg q) x ok
  | .setValue, q, x, ok => unary id (.error illegalState) (SetValue.task cfg q) x ok
  | .multiSetValue, q, x, ok => unary id (.error illegalState) (MultiSetValue.task cfg q) x ok
  | .deviceRequest, q, x, ok => DeviceRequest.proceed cfg q x ok
  | .externalObjectRequest, q, x, ok => ExternalObjectRequest.proceed cfg q x ok
  | .getParam, q, x, ok => unary id (.error illegalState) (GetParam.task cfg q) x ok
  | .executeCommand, q, x, ok => ExecuteCommand.proceed cfg q x ok
  | .addLanguage, q, x, ok => unary id (.error illegalState) (AddLanguage.task cfg q) x ok
  | .listLanguages, q, x, ok => unary id (.error illegalState) (ListLanguages.task cfg q) x ok
  | .languagePackRequest, q, x, ok =>
      unary id (.error illegalState) (LanguagePackRequest.task cfg q) x ok
  | .updateSubscriptions, q, x, ok => UpdateSubscriptions.proceed cfg q x ok

/-- `ServiceImpl` with its completion queue. -/
def server (cfg : Config) : Framework.Completion.Server grpc where
  blank := blank
  fresh := fresh
  proceed := proceed cfg
  act := World.act

/-- The objects that `ServiceImpl::init` makes. -/
def controllers : List Controller :=
  [.getPopulatedSlots, .getValue, .setValue, .multiSetValue, .deviceRequest,
    .externalObjectRequest, .getParam, .executeCommand, .addLanguage, .listLanguages,
    .languagePackRequest, .updateSubscriptions]

/-! ## The phases of an object -/

/-- The phase of an object in a state of `CallStatus`. -/
def CallStatus.phase : CallStatus → Phase
  | .kCreate => .creating
  | .kProcess => .waiting
  | .kRead | .kWrite | .kPostWrite => .serving
  | .kFinish => .finishing

def phase : (i : Controller) → i.State → Phase
  | .deviceRequest, x => x.status.phase
  | .executeCommand, x => x.status.phase
  | .updateSubscriptions, x => x.status.phase
  | .getPopulatedSlots, x | .getValue, x | .setValue, x | .multiSetValue, x
  | .externalObjectRequest, x | .getParam, x | .addLanguage, x | .listLanguages, x
  | .languagePackRequest, x => CallStatus.phase x

variable {i : Controller}

/-- What a turn of an object in a state comes to. -/
structure TurnFollows (x : i.State) (code : Bool → Code grpc i) : Prop where
  creates : phase i x = .creating → (code true).Follows (phase i) .request false x
  accepts : phase i x = .waiting → (code true).Follows (phase i) .answer true x
  continues : phase i x = .serving → (code true).Follows (phase i) .answer false x
  finishes : phase i x = .finishing → (code true).Follows (phase i) .delete false x
  fails : (code false).Follows (phase i) .delete false x

/-- Code that answers: a write that leaves the object serving, or the finish. -/
abbrev Answers (x : i.State) (code : Code grpc i) : Prop :=
  code.Follows (phase i) .answer false x

theorem answers_finish {enter : CallStatus → grpc.State i}
    (henter : ∀ status, phase i (enter status) = status.phase) (r : grpc.Answer i) (x : i.State) :
    Answers x (finish enter r) :=
  ⟨rfl, rfl, henter .kFinish⟩

theorem turnFollows_turn {enter : CallStatus → grpc.State i}
    (henter : ∀ status, phase i (enter status) = status.phase) {status : CallStatus} {x : i.State}
    (hx : phase i x = status.phase) {illegal : grpc.Answer i}
    {process write postWrite : Code grpc i}
    (hprocess : Answers x process) (hwrite : status = .kWrite → Answers x write)
    (hpostWrite : Answers x postWrite) :
    TurnFollows x fun ok => turn enter status ok illegal process write postWrite := by
  have hfinish := answers_finish henter illegal x
  constructor
  · intro hphase
    cases status with
    | kCreate => exact ⟨rfl, rfl, henter .kProcess⟩
    | _ => cases hx.symm.trans hphase
  · intro hphase
    cases status with
    | kProcess => exact ⟨rfl, rfl, hprocess⟩
    | _ => cases hx.symm.trans hphase
  · intro hphase
    cases status with
    | kRead => exact hfinish
    | kWrite => exact hwrite rfl
    | kPostWrite => exact hpostWrite
    | _ => cases hx.symm.trans hphase
  · intro hphase
    cases status with
    | kFinish => exact ⟨rfl, rfl, rfl⟩
    | _ => cases hx.symm.trans hphase
  · exact ⟨rfl, rfl, rfl⟩

theorem answers_withDevice {x : i.State} {a : Action} {slot : Nat}
    {rest : World → ServedDevice → Code grpc i} (h : ∀ w d, Answers x (rest w d)) :
    Answers x (withDevice a slot rest) := by
  intro w
  change Answers x ((w.devices slot).elim .abort (rest w))
  cases w.devices slot with
  | none => exact trivial
  | some d => exact h w d

theorem Task.answers_code {enter : CallStatus → grpc.State i}
    (henter : ∀ status, phase i (enter status) = status.phase) (task : Task i) (x : i.State) :
    Answers x (task.code enter) := by
  cases task with
  | respond r => exact answers_finish henter r x
  | inSection a answer =>
    intro w
    change Answers x ((answer w).elim .abort (finish enter))
    cases answer w with
    | none => exact trivial
    | some r => exact answers_finish henter r x

theorem turnFollows_unary {enter : CallStatus → grpc.State i}
    (henter : ∀ status, phase i (enter status) = status.phase) {status : CallStatus} {x : i.State}
    (hx : phase i x = status.phase) (illegal : grpc.Answer i) (task : Task i) :
    TurnFollows x (unary enter illegal task status) :=
  turnFollows_turn henter hx (task.answers_code henter x)
    (fun _ => answers_finish henter illegal x) (answers_finish henter illegal x)

/-! ### The streams -/

theorem answers_attempt {α : Type} {x : i.State} {fail : Status → Code grpc i}
    {r : Except ExceptionWithStatus α} {rest : α → Code grpc i} (hfail : ∀ rc, Answers x (fail rc))
    (hrest : ∀ a, Answers x (rest a)) : Answers x (attempt fail r rest) := by
  cases r with
  | error rc => exact hfail _
  | ok a => exact hrest a

theorem answers_addSubscriptions {x : i.State} {slot : Nat} {authz : Authorizer}
    {fail : Status → Code grpc i} {rest : Code grpc i} (hfail : ∀ rc, Answers x (fail rc))
    (hrest : Answers x rest) (oids : List String) :
    Answers x (addSubscriptions slot authz fail rest oids) := by
  induction oids with
  | nil => exact hrest
  | cons oid oids ih =>
    apply answers_withDevice
    intro w d
    cases w.subscriptions.addSubscription oid d.device d.values authz with
    | ok added => exact ih
    | error why =>
      cases why with
      | outOfFuel => exact trivial
      | threw why => cases why <;> exact hfail _

theorem answers_removeSubscriptions {x : i.State} {slot : Nat} {rest : Code grpc i}
    (hrest : Answers x rest) (oids : List String) :
    Answers x (removeSubscriptions slot rest oids) := by
  induction oids with
  | nil => exact hrest
  | cons oid oids ih => exact fun _ => ih

namespace DeviceRequest

theorem answers_finish (x y : DeviceRequest) (rc : Status) :
    Answers (i := .deviceRequest) y (x.finish rc) :=
  ⟨rfl, rfl, rfl⟩

theorem answers_write (slot : Nat) (x y : DeviceRequest) :
    Answers (i := .deviceRequest) y (write slot x) := by
  unfold write
  cases x.serializer with
  | none => exact answers_finish x y _
  | some serializer =>
    apply answers_withDevice
    intro w d
    refine ⟨rfl, rfl, ?_⟩
    cases hmore : (serializer.getNext .moved).2.hasMore <;>
      simp [Goal.Posts, phase, CallStatus.phase]

theorem answers_start (slot : Nat) (dl : DetailLevel) (x y : DeviceRequest)
    (subscribedOids : List String) :
    Answers (i := .deviceRequest) y (start slot dl x subscribedOids) := by
  apply answers_withDevice
  intro w d
  exact answers_attempt (answers_finish x y) fun serializer => answers_write slot _ _

theorem answers_process (cfg : Config) (q : Received DeviceRequestPayload) (x : DeviceRequest) :
    Answers (i := .deviceRequest) x (process cfg q x) := by
  refine answers_attempt (answers_finish x x) fun _ => ?_
  refine answers_attempt (answers_finish x x) fun decoded => ?_
  dsimp only
  split
  · apply answers_addSubscriptions (answers_finish _ x)
    apply answers_withDevice
    intro w d
    exact answers_start _ _ _ x _
  · exact answers_start _ _ _ x _

end DeviceRequest

theorem ExternalObjectRequest.answers_write (cfg : Config) (q : Received OidPayload)
    (x : CallStatus) : Answers (i := .externalObjectRequest) x (write cfg q) := by
  have hfail (rc : Status) :
      Answers (i := .externalObjectRequest) x (finish (i := .externalObjectRequest) id rc) :=
    answers_finish (fun _ => rfl) rc x
  unfold write
  dsimp only
  split
  · exact hfail _
  · split
    · exact hfail _
    · intro w
      dsimp only
      split
      · exact hfail _
      · exact hfail _
      · intro w
        change Answers (i := .externalObjectRequest) x ((w.files _).read.elim _ _)
        cases (w.files (cfg.EOPath ++ q.message.oid)).read with
        | none => exact hfail _
        | some data => exact ⟨rfl, rfl, rfl⟩

namespace ExecuteCommand

theorem answers_finish (x y : ExecuteCommand) (rc : Status) :
    Answers (i := .executeCommand) y (x.finish rc) :=
  ⟨rfl, rfl, rfl⟩

theorem answers_unlessExpired {x y : ExecuteCommand} {rest : Code grpc .executeCommand}
    (h : Answers (i := .executeCommand) y rest) :
    Answers (i := .executeCommand) y (unlessExpired x rest) := by
  intro w
  dsimp only
  split
  · exact answers_finish x y _
  · exact h

/-- The induction is on what the responder still does. -/
theorem answers_resume (respond : Bool) (x y : ExecuteCommand) (responder : Responder) :
    Answers (i := .executeCommand) y (resume respond x responder) := by
  induction responder with
  | run effect rest ih => exact fun w => ih w
  | yield response rest ih =>
    unfold resume
    split
    · exact ⟨rfl, rfl, rfl⟩
    · exact answers_unlessExpired ih
  | ret response =>
    unfold resume
    split
    · exact ⟨rfl, rfl, rfl⟩
    · exact answers_finish x y _
  | throw why => exact answers_finish x y _

theorem answers_write (respond : Bool) (x y : ExecuteCommand) :
    Answers (i := .executeCommand) y (write respond x) := by
  unfold write
  cases x.responder with
  | none => exact answers_finish x y _
  | some responder => exact answers_unlessExpired (answers_resume respond x y responder)

theorem answers_execute (cfg : Config) (q : ExecuteCommandPayload) (x y : ExecuteCommand)
    (authz : Authorizer) (command : String × Node) :
    Answers (i := .executeCommand) y (execute cfg q x authz command) := by
  unfold execute
  split
  · exact answers_finish x y _
  · cases cfg.commandImpl q.slot command.1 q.value q.respond with
    | error why => exact answers_finish x y _
    | ok responder => exact answers_write q.respond _ _

theorem answers_process (cfg : Config) (q : Received ExecuteCommandPayload) (x : ExecuteCommand) :
    Answers (i := .executeCommand) x (process cfg q x) := by
  refine answers_attempt (answers_finish x x) fun _ => ?_
  refine answers_attempt (answers_finish x x) fun decoded => ?_
  apply answers_withDevice
  intro w d
  cases d.getCommand q.message.oid decoded.1 with
  | error why => exact answers_finish x x _
  | ok found =>
    exact answers_attempt (answers_finish x x) fun command =>
      answers_execute cfg q.message _ x _ command

end ExecuteCommand

namespace UpdateSubscriptions

theorem answers_finish (x y : UpdateSubscriptions) (rc : Status) :
    Answers (i := .updateSubscriptions) y (x.finish rc) :=
  ⟨rfl, rfl, rfl⟩

theorem answers_write (slot : Nat) {x : UpdateSubscriptions} (hx : x.status = .kWrite)
    (y : UpdateSubscriptions) (it : List String) :
    Answers (i := .updateSubscriptions) y (write slot x it) := by
  induction it with
  | nil => exact answers_finish _ y _
  | cons oid it ih =>
    apply answers_withDevice
    intro w d
    cases listing d.device d.values x.authz .kAuthzDisabled oid with
    | none => exact ih
    | some listed => exact ⟨rfl, rfl, congrArg CallStatus.phase hx⟩

theorem answers_process (cfg : Config) (q : Received UpdateSubscriptionsPayload)
    (x : UpdateSubscriptions) : Answers (i := .updateSubscriptions) x (process cfg q x) := by
  refine answers_attempt (answers_finish x x) fun _ => ?_
  apply answers_withDevice
  intro w d
  split
  · exact answers_finish x x _
  · refine answers_attempt (answers_finish x x) fun decoded => ?_
    refine answers_addSubscriptions (answers_finish _ x) (answers_removeSubscriptions ?_ _) _
    apply answers_withDevice
    intro w d
    exact answers_write _ rfl _ _

end UpdateSubscriptions

theorem turnFollows_proceed (cfg : Config) (i : Controller) (q : i.Request) (x : i.State) :
    TurnFollows x (proceed cfg i q x) := by
  cases i with
  | deviceRequest =>
    exact turnFollows_turn (fun _ => rfl) rfl (DeviceRequest.answers_process cfg q x)
      (fun _ => DeviceRequest.answers_write _ x x) (DeviceRequest.answers_finish x x _)
  | externalObjectRequest =>
    have hwrite (x : CallStatus) := ExternalObjectRequest.answers_write cfg q x
    exact turnFollows_turn (fun _ => rfl) rfl (hwrite .kWrite) (fun _ => hwrite x)
      (answers_finish (fun _ => rfl) _ x)
  | executeCommand =>
    exact turnFollows_turn (fun _ => rfl) rfl (ExecuteCommand.answers_process cfg q x)
      (fun _ => ExecuteCommand.answers_write _ x x) (ExecuteCommand.answers_finish x x _)
  | updateSubscriptions =>
    exact turnFollows_turn (fun _ => rfl) rfl (UpdateSubscriptions.answers_process cfg q x)
      (fun hx => UpdateSubscriptions.answers_write _ hx x _)
      (UpdateSubscriptions.answers_finish x x _)
  | _ => exact turnFollows_unary (fun _ => rfl) rfl _ _

theorem phase_fresh (i : Controller) : phase i (fresh i) = .creating := by
  cases i <;> rfl

theorem disciplined (cfg : Config) : Disciplined (server cfg) phase where
  fresh := phase_fresh
  creates i q x := (turnFollows_proceed cfg i q x).creates
  accepts i q x := (turnFollows_proceed cfg i q x).accepts
  continues i q x := (turnFollows_proceed cfg i q x).continues
  finishes i q x := (turnFollows_proceed cfg i q x).finishes
  fails i q x := (turnFollows_proceed cfg i q x).fails

/-! ## Every run of the service -/

section Example

def emptyConfig : Config where
  slots := []
  authorizationEnabled := false
  decode _ := none
  commandImpl _ _ _ _ := .ok none
  sha256 := id

def emptyWorld : World := { devices := fun _ => none, subscriptions := ⟨fun _ => ∅⟩ }

/-- The panel, in a slot of a service without authorization. -/
def panelConfig : Config := { emptyConfig with slots := [1] }

def panelWorld : World := { emptyWorld with
  devices := fun slot => if slot = 1 then some { panelModel with languages := {} } else none }

def gainRequest : (i : Controller) → i.Request
  | .getValue => ⟨⟨1, "/gain"⟩, none⟩
  | .setValue => ⟨⟨1, "/gain", .int32Value 7⟩, none⟩
  | i => blank i

/-- The first objects wait. A client sets the gain and another reads it, in turns, and both calls
come to their ends. -/
def callsRun : List (Event grpc) :=
  (List.range 12).flatMap (fun j => [.run j 0, .run j 0]) ++
    [.complete 2 0 true gainRequest, .complete 1 0 true gainRequest, .run 2 0, .run 1 0,
      .run 12 0, .run 13 0, .run 2 0, .run 1 0, .run 13 0, .run 12 0] ++
    [.run 2 0, .run 1 0, .run 1 0, .run 2 0, .complete 1 0 true blank, .complete 2 0 true blank,
      .run 1 0, .run 2 0]

def afterCalls : Service grpc :=
  let start := (server panelConfig).start controllers panelWorld
  (replay (server panelConfig).step callsRun start).getD start

theorem reaches_afterCalls : (server panelConfig).Reaches controllers panelWorld afterCalls :=
  ⟨callsRun, rfl⟩

end Example

section

variable (cfg : Config) (world : World) {s : Service grpc}

/-- Whatever the order of completions and threads, no object is used after it has been deleted, an
object that lives has one operation on the queue or one thread, and what it has posted is a
request, messages, and at most one answer at the end. -/
theorem lifecycle (h : (server cfg).Reaches controllers world s) : s.fault = false ∧
    ∀ c ∈ s.calls, (c.pending.length + c.threads.length = if c.alive then 1 else 0) ∧
      (c.posted = [] ∨ ∃ ms fin, c.posted = trace ms fin) := by
  have hsound := sound_of_reaches (disciplined cfg) h
  refine ⟨noFault_of_reaches (disciplined cfg) h, fun c hc => ?_⟩
  exact ⟨(hsound c hc).alive_iff, (hsound c hc).posted⟩

theorem lifecycle_afterCalls : afterCalls.fault = false ∧
    ∀ c ∈ afterCalls.calls,
      (c.pending.length + c.threads.length = if c.alive then 1 else 0) ∧
        (c.posted = [] ∨ ∃ ms fin, c.posted = trace ms fin) :=
  lifecycle panelConfig panelWorld reaches_afterCalls

/-- When no thread runs, each controller has exactly one object that listens for the next request,
or whose request the server has refused. -/
theorem listens (h : (server cfg).Reaches controllers world s)
    (hidle : ∀ c ∈ s.calls, c.threads = []) (i : Controller) :
    s.calls.countP (Call.Listens (I := grpc) i) = 1 := by
  have hone : controllers.count i = 1 := by cases i <;> rfl
  rw [countP_listens (disciplined cfg) h hidle i, hone]

theorem listens_afterCalls :
    afterCalls.calls.countP (Call.Listens (I := grpc) .setValue) = 1 := by
  have hall : afterCalls.calls.all (fun c => c.threads.isEmpty) = true := rfl
  have hidle : ∀ c ∈ afterCalls.calls, c.threads = [] := fun c hc =>
    List.isEmpty_iff.mp (List.all_eq_true.mp hall c hc)
  exact listens panelConfig panelWorld reaches_afterCalls hidle .setValue

/-- Once the queue is shut down the service comes to rest, in whatever order the operations fail
and the threads run, and its registry is empty then. -/
theorem drains (h : (server cfg).Reaches controllers world s) :
    Acc (DrainStep (server cfg)) s ∧
      (s.aborted = false → (∀ s', ¬DrainStep (server cfg) s' s) → s.registry = []) :=
  ⟨acc_drainStep (disciplined cfg) h, registry_of_rest (disciplined cfg) h⟩

theorem drains_afterCalls : Acc (DrainStep (server panelConfig)) afterCalls ∧
    (afterCalls.aborted = false → (∀ s', ¬DrainStep (server panelConfig) s' afterCalls) →
      afterCalls.registry = []) :=
  drains panelConfig panelWorld reaches_afterCalls

end

end Catena.Grpc
