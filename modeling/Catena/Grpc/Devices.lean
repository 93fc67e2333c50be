import Catena.Grpc.Answers
import Catena.Store.Constraints
import Catena.Store.WriteFrame

/-!
# The devices under concurrent calls

Only the sections of `SetValue` and `MultiSetValue` change the values of a device, and they do it as
`Device::multiSetValue` does for the client of the request. So what every valid entry keeps holds
of a device in every state of the service, however the calls of its clients interleave, as long as
the code of the device does nothing.
-/

namespace Catena.Grpc

open Store Rpc Framework Framework.Completion

variable {i : Controller} (cfg : Config)

/-- A write is made for a client that the service has let in. -/
def ByClient (a : Action) : Prop :=
  ∀ slot call, a = .write slot call →
    ∃ authorization exp, cfg.authorizer authorization = .ok (call.authz, exp)

variable {cfg} {P : Action → Prop}

theorem acts_finish (enter : CallStatus → grpc.State i) (r : grpc.Answer i) :
    (finish enter r).Acts P :=
  trivial

theorem acts_turn {enter : CallStatus → grpc.State i} {illegal : grpc.Answer i}
    {process write postWrite : Code grpc i} (hprocess : process.Acts P) (hwrite : write.Acts P)
    (hpostWrite : postWrite.Acts P) (status : CallStatus) (ok : Bool) :
    (turn enter status ok illegal process write postWrite).Acts P := by
  cases ok with
  | false => exact trivial
  | true =>
    cases status with
    | kProcess => exact hprocess
    | kWrite => exact hwrite
    | kPostWrite => exact hpostWrite
    | _ => exact trivial

theorem acts_withDevice {a : Action} {slot : Nat} {rest : World → ServedDevice → Code grpc i}
    (ha : P a) (hrest : ∀ w d, (rest w d).Acts P) : (withDevice a slot rest).Acts P := by
  refine ⟨ha, fun w => ?_⟩
  change ((w.devices slot).elim .abort (rest w)).Acts P
  cases w.devices slot with
  | none => exact trivial
  | some d => exact hrest w d

theorem acts_attempt {α : Type} {fail : Status → Code grpc i} {r : Except ExceptionWithStatus α}
    {rest : α → Code grpc i} (hfail : ∀ rc, (fail rc).Acts P) (hrest : ∀ a, (rest a).Acts P) :
    (attempt fail r rest).Acts P := by
  cases r with
  | error rc => exact hfail _
  | ok a => exact hrest a

theorem acts_addSubscriptions (hP : ∀ slot oid authz, P (.addSubscription slot oid authz))
    {slot : Nat} {authz : Authorizer} {fail : Status → Code grpc i} {rest : Code grpc i}
    (hfail : ∀ rc, (fail rc).Acts P) (hrest : rest.Acts P) (oids : List String) :
    (addSubscriptions slot authz fail rest oids).Acts P := by
  induction oids with
  | nil => exact hrest
  | cons oid oids ih =>
    refine acts_withDevice (hP slot oid authz) fun w d => ?_
    cases w.subscriptions.addSubscription oid d.device d.values authz with
    | ok added => exact ih
    | error why =>
      cases why with
      | outOfFuel => exact trivial
      | threw why => cases why <;> exact hfail _

theorem acts_removeSubscriptions (hP : ∀ slot oid, P (.removeSubscription slot oid)) {slot : Nat}
    {rest : Code grpc i} (hrest : rest.Acts P) (oids : List String) :
    (removeSubscriptions slot rest oids).Acts P := by
  induction oids with
  | nil => exact hrest
  | cons oid oids ih => exact ⟨hP slot oid, fun _ => ih⟩

theorem byClient_of_ne {a : Action} (h : ∀ slot call, a ≠ .write slot call) : ByClient cfg a :=
  fun slot call ha => absurd ha (h slot call)

theorem byClient_look : ByClient cfg .look := byClient_of_ne fun _ _ h => by cases h

theorem byClient_addLanguage {slot : Nat} {language : AddLanguagePayload} {authz : Authorizer} :
    ByClient cfg (.addLanguage slot language authz) :=
  byClient_of_ne fun _ _ h => by cases h

theorem byClient_addSubscription (slot : Nat) (oid : String) (authz : Authorizer) :
    ByClient cfg (.addSubscription slot oid authz) :=
  byClient_of_ne fun _ _ h => by cases h

theorem byClient_removeSubscription (slot : Nat) (oid : String) :
    ByClient cfg (.removeSubscription slot oid) :=
  byClient_of_ne fun _ _ h => by cases h

theorem acts_inSection {enter : CallStatus → grpc.State i} {a : Action}
    {answer : World → Option (grpc.Answer i)} (ha : P a) :
    ((Task.inSection a answer).code enter).Acts P := by
  refine ⟨ha, fun w => ?_⟩
  change ((answer w).elim .abort (finish enter)).Acts P
  cases answer w <;> exact trivial

theorem acts_respond (enter : CallStatus → grpc.State i) (r : grpc.Answer i) :
    ((Task.respond r).code enter).Acts P :=
  trivial

theorem acts_atSlot {enter : CallStatus → grpc.State i}
    {refuse : ExceptionWithStatus → grpc.Answer i} {slot : Nat} {rest : Task i}
    (hrest : (rest.code enter).Acts P) :
    ((Task.atSlot refuse cfg slot rest).code enter).Acts P := by
  unfold Task.atSlot
  cases cfg.checkSlot slot with
  | error rc => exact trivial
  | ok _ => exact hrest

theorem acts_authorized {enter : CallStatus → grpc.State i}
    {refuse : ExceptionWithStatus → grpc.Answer i} {slot : Nat} {authorization : Option String}
    {rest : Authorizer → Task i}
    (hrest : ∀ authz exp, cfg.authorizer authorization = .ok (authz, exp) →
      ((rest authz).code enter).Acts P) :
    ((Task.authorized refuse cfg slot authorization rest).code enter).Acts P := by
  refine acts_atSlot ?_
  cases hauthz : cfg.authorizer authorization with
  | error rc => exact trivial
  | ok decoded => exact hrest decoded.1 decoded.2 hauthz

theorem acts_unary {enter : CallStatus → grpc.State i} {illegal : grpc.Answer i} {task : Task i}
    (h : (task.code enter).Acts P) (x : CallStatus) (ok : Bool) :
    (unary enter illegal task x ok).Acts P :=
  acts_turn h (acts_finish enter illegal) (acts_finish enter illegal) x ok

theorem ExternalObjectRequest.acts_write (q : Received OidPayload) :
    (ExternalObjectRequest.write cfg q).Acts (ByClient cfg) := by
  unfold ExternalObjectRequest.write
  dsimp only
  split
  · exact trivial
  · split
    · exact trivial
    · refine ⟨byClient_look, fun w => ?_⟩
      dsimp only
      split
      · exact trivial
      · exact trivial
      · refine ⟨byClient_look, fun w => ?_⟩
        change ((w.files _).read.elim _ _ : Code grpc .externalObjectRequest).Acts (ByClient cfg)
        cases (w.files (cfg.EOPath ++ q.message.oid)).read <;> exact trivial

namespace DeviceRequest

theorem acts_finish (x : DeviceRequest) (rc : Status) : (x.finish rc).Acts P := trivial

theorem acts_write (slot : Nat) (x : DeviceRequest) :
    (write slot x).Acts (ByClient cfg) := by
  unfold write
  cases x.serializer with
  | none => exact trivial
  | some serializer => exact acts_withDevice byClient_look fun _ _ => trivial

theorem acts_start (slot : Nat) (dl : DetailLevel) (x : DeviceRequest)
    (subscribedOids : List String) :
    (start slot dl x subscribedOids).Acts (ByClient cfg) :=
  acts_withDevice byClient_look fun _ _ =>
    acts_attempt (fun _ => trivial) fun _ => acts_write slot _

theorem acts_process (q : Received DeviceRequestPayload) (x : DeviceRequest) :
    (process cfg q x).Acts (ByClient cfg) := by
  refine acts_attempt (fun _ => trivial) fun _ => ?_
  refine acts_attempt (fun _ => trivial) fun decoded => ?_
  dsimp only
  split
  · exact acts_addSubscriptions byClient_addSubscription (acts_finish _)
      (acts_withDevice byClient_look fun _ _ => acts_start _ _ _ _) _
  · exact acts_start _ _ _ _

end DeviceRequest

namespace ExecuteCommand

theorem acts_finish (x : ExecuteCommand) (rc : Status) : (x.finish rc).Acts P := trivial

theorem acts_unlessExpired {x : ExecuteCommand} {rest : Code grpc .executeCommand}
    (h : rest.Acts (ByClient cfg)) : (unlessExpired x rest).Acts (ByClient cfg) := by
  refine ⟨byClient_look, fun w => ?_⟩
  dsimp only
  split
  · exact trivial
  · exact h

theorem acts_resume (respond : Bool) (x : ExecuteCommand) (responder : Responder) :
    (resume respond x responder).Acts (ByClient cfg) := by
  induction responder with
  | run effect rest ih =>
    exact ⟨byClient_of_ne (fun _ _ h => by cases h), fun w => ih w⟩
  | yield response rest ih =>
    unfold resume
    split
    · exact trivial
    · exact acts_unlessExpired ih
  | ret response =>
    unfold resume
    split <;> exact trivial
  | throw why => exact trivial

theorem acts_write (respond : Bool) (x : ExecuteCommand) :
    (write respond x).Acts (ByClient cfg) := by
  unfold write
  cases x.responder with
  | none => exact trivial
  | some responder => exact acts_unlessExpired (acts_resume respond x responder)

theorem acts_process (q : Received ExecuteCommandPayload) (x : ExecuteCommand) :
    (process cfg q x).Acts (ByClient cfg) := by
  refine acts_attempt (fun _ => trivial) fun _ => ?_
  refine acts_attempt (fun _ => trivial) fun decoded => ?_
  refine acts_withDevice byClient_look fun w d => ?_
  cases d.getCommand q.message.oid decoded.1 with
  | error why => exact trivial
  | ok found =>
    refine acts_attempt (fun _ => trivial) fun command => ?_
    unfold execute
    split
    · exact trivial
    · cases cfg.commandImpl q.message.slot command.1 q.message.value q.message.respond with
      | error why => exact trivial
      | ok responder => exact acts_write q.message.respond _

end ExecuteCommand

namespace UpdateSubscriptions

theorem acts_finish (x : UpdateSubscriptions) (rc : Status) : (x.finish rc).Acts P := trivial

theorem acts_write (slot : Nat) (x : UpdateSubscriptions) (it : List String) :
    (write slot x it).Acts (ByClient cfg) := by
  induction it with
  | nil => exact trivial
  | cons oid it ih =>
    refine acts_withDevice byClient_look fun w d => ?_
    cases listing d.device d.values x.authz .kAuthzDisabled oid with
    | none => exact ih
    | some listed => exact trivial

theorem acts_process (q : Received UpdateSubscriptionsPayload) (x : UpdateSubscriptions) :
    (process cfg q x).Acts (ByClient cfg) := by
  refine acts_attempt (fun _ => trivial) fun _ => ?_
  refine acts_withDevice byClient_look fun w d => ?_
  split
  · exact trivial
  · refine acts_attempt (fun _ => trivial) fun decoded => ?_
    refine acts_addSubscriptions byClient_addSubscription (acts_finish _) ?_ _
    refine acts_removeSubscriptions byClient_removeSubscription ?_ _
    exact acts_withDevice byClient_look fun _ _ => acts_write _ _ _

end UpdateSubscriptions

/-- Every write in the code of a controller is made for a client that has been let in. -/
theorem byClient_proceed (i : Controller) (q : i.Request) (x : i.State) (ok : Bool) :
    ((server cfg).proceed i q x ok).Acts (ByClient cfg) := by
  have hwrite {slot : Nat} {values : List SetValuePayload} {authz : Authorizer} {exp : Nat}
      {authorization : Option String} (h : cfg.authorizer authorization = .ok (authz, exp)) :
      ByClient cfg (.write slot (.multiSetValue values authz)) := by
    rintro _ _ ⟨rfl, rfl⟩
    exact ⟨authorization, exp, h⟩
  cases i with
  | getPopulatedSlots => exact acts_unary (acts_respond (i := .getPopulatedSlots) id _) x ok
  | getValue =>
    exact acts_unary (acts_authorized fun _ _ _ => acts_inSection byClient_look) x ok
  | setValue =>
    exact acts_unary (acts_authorized fun _ _ h => acts_inSection (hwrite h)) x ok
  | multiSetValue =>
    exact acts_unary (acts_authorized fun _ _ h => acts_inSection (hwrite h)) x ok
  | getParam =>
    exact acts_unary (acts_authorized fun _ _ _ => acts_inSection byClient_look) x ok
  | addLanguage =>
    exact acts_unary (acts_authorized fun _ _ _ => acts_inSection byClient_addLanguage) x ok
  | listLanguages => exact acts_unary (acts_atSlot (acts_inSection byClient_look)) x ok
  | languagePackRequest => exact acts_unary (acts_atSlot (acts_inSection byClient_look)) x ok
  | deviceRequest =>
    exact acts_turn (DeviceRequest.acts_process q x) (DeviceRequest.acts_write _ x)
      (DeviceRequest.acts_finish x .OK) x.status ok
  | externalObjectRequest =>
    have hprocess : (Code.set CallStatus.kWrite (ExternalObjectRequest.write cfg q) :
        Code grpc .externalObjectRequest).Acts (ByClient cfg) := ExternalObjectRequest.acts_write q
    exact acts_turn hprocess (ExternalObjectRequest.acts_write q)
      (acts_finish (i := .externalObjectRequest) id .OK) x ok
  | executeCommand =>
    exact acts_turn (ExecuteCommand.acts_process q x) (ExecuteCommand.acts_write _ x)
      (ExecuteCommand.acts_finish x .OK) x.status ok
  | updateSubscriptions =>
    exact acts_turn (UpdateSubscriptions.acts_process q x) (UpdateSubscriptions.acts_write _ x _)
      (UpdateSubscriptions.acts_finish x .OK) x.status ok

/-! ## What the log makes of a device -/

def World.valuesAt (w : World) (slot : Nat) : Option (Σ d : Device, d.State) :=
  (w.devices slot).map fun d => ⟨d.device, d.values⟩

theorem World.valuesAt_update (w : World) (slot slot' : Nat) (f : ServedDevice → ServedDevice) :
    (w.update slot' f).valuesAt slot = if slot = slot'
      then (w.devices slot).map fun d => ⟨(f d).device, (f d).values⟩ else w.valuesAt slot := by
  by_cases h : slot = slot'
  · subst h
    simp [World.valuesAt, World.update, Function.comp_def]
  · simp [World.valuesAt, World.update, h]

/-- An action other than a write to the device and a change by its code. -/
theorem World.valuesAt_act {a : Action} {slot : Nat} (hwrite : ∀ call, a ≠ .write slot call)
    (hchange : ∀ effect, a = .change effect → effect = id) (w : World) :
    (w.act a).valuesAt slot = w.valuesAt slot := by
  cases a with
  | look => rfl
  | write slot' call =>
    have hne : slot ≠ slot' := by
      rintro rfl
      exact hwrite call rfl
    exact (w.valuesAt_update slot slot' _).trans (if_neg hne)
  | addLanguage slot' language authz =>
    refine (w.valuesAt_update slot slot' _).trans ?_
    split <;> rfl
  | putLanguage slot' post language authz =>
    refine (w.valuesAt_update slot slot' _).trans ?_
    split <;> rfl
  | removeLanguage slot' languageId authz =>
    refine (w.valuesAt_update slot slot' _).trans ?_
    split <;> rfl
  | addSubscription slot' oid authz => rfl
  | removeSubscription slot' oid => rfl
  | change effect =>
    rw [hchange effect rfl]
    rfl

/-- The device in a slot has values with a property. -/
def World.ValuesHold (w : World) (slot : Nat) (d : Device) (R : d.State → Prop) : Prop :=
  ∃ values, w.valuesAt slot = some ⟨d, values⟩ ∧ R values

theorem World.valuesHold_act {w : World} {slot : Nat} {d : Device} {R : d.State → Prop}
    (h : w.ValuesHold slot d R) {a : Action}
    (hchange : ∀ effect, a = .change effect → effect = id)
    (happly : ∀ call, a = .write slot call → ∀ path src s₁ s₂, d.ValidEntry call.authz path src →
      d.apply path src s₁ = some ((), s₂) → R s₁ → R s₂) :
    (w.act a).ValuesHold slot d R := by
  obtain ⟨values, hvalues, hR⟩ := h
  by_cases hwrite : ∃ call, a = .write slot call
  · obtain ⟨call, rfl⟩ := hwrite
    obtain ⟨served, hserved, hsame⟩ := Option.map_eq_some_iff.mp hvalues
    cases hsame
    refine ⟨(served.device.call served.values call).store, ?_,
      served.device.call_invariant R _ _ (happly call rfl) hR⟩
    refine (w.valuesAt_update slot slot _).trans ?_
    rw [if_pos rfl, hserved]
    rfl
  · refine ⟨values, ?_, hR⟩
    exact (World.valuesAt_act (fun call ha => hwrite ⟨call, ha⟩) hchange w).trans hvalues

/-- The log of calls whose commands change nothing. -/
def OnlyCalls (log : List (Option Nat × Action)) : Prop :=
  ∀ e ∈ log, e.1.isSome = true ∧ ∀ effect, e.2 = .change effect → effect = id

theorem World.valuesHold_after {slot : Nat} {d : Device} {R : d.State → Prop}
    (happly : ∀ authorization authz exp, cfg.authorizer authorization = .ok (authz, exp) →
      ∀ path src s₁ s₂, d.ValidEntry authz path src → d.apply path src s₁ = some ((), s₂) →
        R s₁ → R s₂)
    {log : List (Option Nat × Action)} (hlog : OnlyCalls log)
    (hclient : ∀ e ∈ log, ByClient cfg e.2) {w : World} (hw : w.ValuesHold slot d R) :
    (Log.after World.act log w).ValuesHold slot d R := by
  induction log generalizing w with
  | nil => exact hw
  | cons e log ih =>
    have hstep : (w.act e.2).ValuesHold slot d R := by
      refine World.valuesHold_act hw (hlog e List.mem_cons_self).2 fun call ha => ?_
      obtain ⟨authorization, exp, hauthz⟩ := hclient e List.mem_cons_self slot call ha
      exact happly authorization call.authz exp hauthz
    exact ih (fun e' he' => hlog e' (List.mem_cons_of_mem e he'))
      (fun e' he' => hclient e' (List.mem_cons_of_mem e he')) hstep

theorem OnlyCalls.all {log : List (Option Nat × Action)} (hlog : OnlyCalls log)
    {P : Action → Prop} (h : ∀ j a, (some j, a) ∈ log → P a) : ∀ e ∈ log, P e.2 := by
  intro e he
  obtain ⟨j, hj⟩ := Option.isSome_iff_exists.mp (hlog e he).1
  refine h j e.2 ?_
  rw [← hj]
  exact he

theorem valuesHold_of_reaches {world : World} {s : Service grpc}
    (h : (server cfg).Reaches controllers world s) (hlog : OnlyCalls s.log) {slot : Nat}
    {d : Device} {R : d.State → Prop}
    (happly : ∀ authorization authz exp, cfg.authorizer authorization = .ok (authz, exp) →
      ∀ path src s₁ s₂, d.ValidEntry authz path src → d.apply path src s₁ = some ((), s₂) →
        R s₁ → R s₂)
    (hstart : world.ValuesHold slot d R) : s.world.ValuesHold slot d R := by
  have hclient : ∀ e ∈ s.log, ByClient cfg e.2 :=
    hlog.all fun _ _ ha => acts_of_reaches byClient_proceed h ha
  rw [(recorded_of_reaches h).current]
  exact World.valuesHold_after happly hlog hclient hstart

/-- A leaf that no client who is let in may write has the value that it had. -/
def LeavesKept (cfg : Config) (d : Device) (values values' : d.State) : Prop :=
  ∀ path n, d.nodeAt values' path = some n → n.ty.IsLeaf →
    (∀ authorization authz exp, cfg.authorizer authorization = .ok (authz, exp) →
      Protected authz n.descriptor) → d.nodeAt values path = some n

theorem leavesKept_of_apply {d : Device} {values s₁ s₂ : d.State} {authorization : Option String}
    {authz : Authorizer} {exp : Nat} (hauthz : cfg.authorizer authorization = .ok (authz, exp))
    {path : List Segment} {src : Value} (hvalid : d.ValidEntry authz path src)
    (happly : d.apply path src s₁ = some ((), s₂)) (hs : LeavesKept cfg d values s₁) :
    LeavesKept cfg d values s₂ := by
  intro p n hn hleaf hprot
  have hframe : d.Framed authz s₁ s₂ :=
    d.framed_of_apply hvalid happly fun _ _ hn _ _ => hn
  exact hs p n (hframe p n hn hleaf (hprot authorization authz exp hauthz)) hleaf hprot

section Example

/-- A service with a read-only and a writable parameter, without authorization. -/
def statusConfig : Config := { emptyConfig with slots := [1] }

def statusWorld : World := { emptyWorld with
  devices := fun slot => if slot = 1 then
    some { device := statusDevice
           values := (((5 : Int32), (6 : Int32), ()), ())
           detailLevel := .full
           commands := .nil
           commandValues := ()
           commandsWellFormed := trivial
           languages := {} }
    else none }

def setMode : (i : Controller) → i.Request
  | .setValue => ⟨⟨1, "/status/mode", .int32Value 7⟩, none⟩
  | i => blank i

def setRun : List (Event grpc) :=
  [.run 2 0, .run 2 0, .complete 2 0 true setMode, .run 2 0, .run 2 0, .run 2 0, .run 2 0]

def afterSet : Service grpc :=
  let start := (server statusConfig).start controllers statusWorld
  (replay (server statusConfig).step setRun start).getD start

theorem reaches_afterSet : (server statusConfig).Reaches controllers statusWorld afterSet :=
  ⟨setRun, rfl⟩

theorem onlyCalls_afterSet : OnlyCalls afterSet.log := by
  have hlog : afterSet.log = [(some 2, .write 1 (.multiSetValue
      [⟨"/status/mode", .int32Value 7⟩] .kAuthzDisabled))] := rfl
  rw [hlog]
  intro e he
  obtain rfl := List.mem_singleton.mp he
  exact ⟨rfl, fun _ h => by cases h⟩

end Example

/-- A leaf that no client who is let in may write keeps its value, however the calls of all clients
interleave. -/
theorem concurrent_leaves_unchanged (cfg : Config) {world : World} {s : Service grpc}
    (h : (server cfg).Reaches controllers world s) (hlog : OnlyCalls s.log) {slot : Nat}
    {d : Device} {values : d.State} (hstart : world.valuesAt slot = some ⟨d, values⟩) :
    ∃ values', s.world.valuesAt slot = some ⟨d, values'⟩ ∧
      ∀ path n, d.nodeAt values' path = some n → n.ty.IsLeaf →
        (∀ authorization authz exp, cfg.authorizer authorization = .ok (authz, exp) →
          Protected authz n.descriptor) →
        d.nodeAt values path = some n := by
  have hkept : s.world.ValuesHold slot d (LeavesKept cfg d values) := by
    refine valuesHold_of_reaches h hlog ?_ ⟨values, hstart, fun _ _ hn _ _ => hn⟩
    intro authorization authz exp hauthz path src s₁ s₂ hvalid happly hs
    exact leavesKept_of_apply hauthz hvalid happly hs
  exact hkept

theorem concurrent_leaves_unchanged_status :
    ∃ values', afterSet.world.valuesAt 1 = some ⟨statusDevice, values'⟩ ∧
      ∀ path n, statusDevice.nodeAt values' path = some n → n.ty.IsLeaf →
        (∀ authorization authz exp, statusConfig.authorizer authorization = .ok (authz, exp) →
          Protected authz n.descriptor) →
        statusDevice.nodeAt (((5 : Int32), (6 : Int32), ()), ()) path = some n :=
  concurrent_leaves_unchanged statusConfig reaches_afterSet onlyCalls_afterSet rfl

/-! ## Constraints -/

theorem respectsConstraint_of_apply {d : Device}
    (hranges : ∀ path t pd, d.descend path = some (t, pd) → pd.SaneRange) {authz : Authorizer}
    {path : List Segment} {src : Value} {s₁ s₂ : d.State} (hvalid : d.ValidEntry authz path src)
    (happly : d.apply path src s₁ = some ((), s₂)) (hs : d.Holds RespectsConstraint s₁) :
    d.Holds RespectsConstraint s₂ := by
  have hsane : d.Holds (fun t pd v => pd.SaneRange → RespectsConstraint t pd v) s₂ := by
    refine d.holds_of_apply respectsConstraint_stable (fun _ _ _ _ _ => trivial) happly ?_ ?_
      fun p n hn _ => hs p n hn
    · intro happ t pd x hd hx
      exact every_of_valid authz (respectsConstraint_of_valid authz) t pd src x
        (hvalid.set happ hd) hx
    · intro happ e pd v x hn hx
      have helem := hvalid.push happ (d.descend_of_nodeAt hn)
      exact ⟨every_of_validElem authz (respectsConstraint_of_valid authz) e pd src x helem hx,
        fun _ => trivial⟩
  intro p n hn
  exact hsane p n hn (hranges p n.ty n.descriptor (d.descend_of_nodeAt hn))

section Example

/-- A service with an array whose elements range from 0 to 10. -/
def gainWorld : World := { emptyWorld with
  devices := fun slot => if slot = 1 then
    some { device := gainDevice
           values := (([] : List Int32), ())
           detailLevel := .full
           commands := .nil
           commandValues := ()
           commandsWellFormed := trivial
           languages := {} }
    else none }

def appendGain : (i : Controller) → i.Request
  | .setValue => ⟨⟨1, "/gain/-", .int32Value 99⟩, none⟩
  | i => blank i

/-- A client appends an element that is too large. -/
def appendRun : List (Event grpc) :=
  [.run 2 0, .run 2 0, .complete 2 0 true appendGain, .run 2 0, .run 2 0, .run 2 0, .run 2 0]

def afterAppend : Service grpc :=
  let start := (server statusConfig).start controllers gainWorld
  (replay (server statusConfig).step appendRun start).getD start

theorem reaches_afterAppend : (server statusConfig).Reaches controllers gainWorld afterAppend :=
  ⟨appendRun, rfl⟩

theorem onlyCalls_afterAppend : OnlyCalls afterAppend.log := by
  have hlog : afterAppend.log = [(some 2, .write 1 (.multiSetValue
      [⟨"/gain/-", .int32Value 99⟩] .kAuthzDisabled))] := rfl
  rw [hlog]
  intro e he
  obtain rfl := List.mem_singleton.mp he
  exact ⟨rfl, fun _ h => by cases h⟩

theorem gainDevice_saneRange {path : List Segment} {t : Ty} {pd : ParamDescriptor}
    (hd : gainDevice.descend path = some (t, pd)) : pd.SaneRange := by
  intro min max step hc
  rw [(gainDevice_node hd).1] at hc
  cases hc
  exact ⟨by decide, by decide⟩

theorem respectsConstraint_noGain :
    gainDevice.Holds RespectsConstraint (([] : List Int32), ()) := by
  refine gainDevice.holds_of_every (fun _ _ _ _ => trivial) fun oid member hmember => ?_
  simp only [gainDevice, Fields.findParamByName] at hmember
  split at hmember
  · obtain rfl := Option.some.inj hmember
    exact ⟨trivial, fun _ hx => absurd hx List.not_mem_nil⟩
  · cases hmember

end Example

/-- Choices and ranges hold of every value of a device, however the calls of all clients
interleave. -/
theorem concurrent_respectsConstraint (cfg : Config) {world : World} {s : Service grpc}
    (h : (server cfg).Reaches controllers world s) (hlog : OnlyCalls s.log) {slot : Nat}
    {d : Device} (hranges : ∀ path t pd, d.descend path = some (t, pd) → pd.SaneRange)
    {values : d.State} (hstart : world.valuesAt slot = some ⟨d, values⟩)
    (hvalues : d.Holds RespectsConstraint values) :
    ∃ values', s.world.valuesAt slot = some ⟨d, values'⟩ ∧
      d.Holds RespectsConstraint values' := by
  refine valuesHold_of_reaches h hlog ?_ ⟨values, hstart, hvalues⟩
  intro authorization authz exp _ path src s₁ s₂ hvalid happly hs
  exact respectsConstraint_of_apply hranges hvalid happly hs

theorem concurrent_respectsConstraint_gain :
    ∃ values', afterAppend.world.valuesAt 1 = some ⟨gainDevice, values'⟩ ∧
      gainDevice.Holds RespectsConstraint values' :=
  concurrent_respectsConstraint statusConfig reaches_afterAppend onlyCalls_afterAppend
    (fun _ _ _ hd => gainDevice_saneRange hd) rfl respectsConstraint_noGain

end Catena.Grpc
