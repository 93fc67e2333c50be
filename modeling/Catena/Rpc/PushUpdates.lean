import Catena.Store.StructInfo

/-!
# Push updates

A connected client has one response slot, `res_`, and one flag, `hasUpdate_`. A value change
fills the slot and raises the flag; the writer loop lowers the flag and writes the slot. Both
hold the mutex while they do, so that a run is a sequence of whole steps. An update that is
pending when the next one is serialised is overwritten.
-/

namespace Catena.Rpc

open Store

/-- `st2138::Device_DetailLevel`. -/
inductive DetailLevel where
  | full
  | subscriptions
  | minimal
  | commands
  | none
  | unset
  deriving DecidableEq, Repr

/-- What a connection knows about its client and the service. -/
structure Client where
  authz : Authorizer
  detailLevel : DetailLevel
  /-- The slot number of the device found at a slot of `dms_`. -/
  dms : Nat → Option Nat
  subscriptions : List (Nat × String)

/-- The arguments of a value-change signal: the parameter as it is when the signal is sent. -/
structure ValueSet where
  oid : String
  ty : Ty
  descriptor : ParamDescriptor
  value : ty.Val
  slot : Nat

/-- `st2138::PushUpdates`, as far as value changes fill it. -/
inductive PushUpdates where
  | kindNotSet
  | value (slot : Nat) (oid : String) (value : Value)

/-- A message written to the client. -/
inductive Response where
  | update (res : PushUpdates)
  | finish (status : StatusCode)

/-- The fields of a `Connect` object that the signal handler and the writer loop share.
`closed` is the state of the gRPC context or of the REST socket. -/
structure Connection where
  res : PushUpdates := .kindNotSet
  hasUpdate : Bool := false
  shutdown : Bool := false
  closed : Bool := false
  expired : Bool := false
  finished : Bool := false
  written : List Response := []

namespace Client

variable (client : Client)

/-- `SubscriptionManager::isSubscribed`. -/
def isSubscribed (oid : String) (slot : Nat) : Bool := client.subscriptions.contains (slot, oid)

/-- `detailLevelMap`: whether the detail level asks for the update. -/
def selects (p : ValueSet) : Bool :=
  match client.detailLevel with
  | .full => true
  | .minimal => p.descriptor.info.minimalSet
  | .subscriptions => p.descriptor.info.minimalSet ||
      match client.dms p.slot with
      | some slot => client.isSubscribed p.oid slot
      | Option.none => false
  | .commands => p.descriptor.info.isCommand
  | .none | .unset => false

/-- The status of the serialisation and the message it leaves in the slot. -/
def serialise (p : ValueSet) : ExceptionWithStatus × PushUpdates :=
  let written := toProto client.authz p.ty p.descriptor p.value .kindNotSet
  (written.1, .value p.slot p.oid written.2)

/-- The client may read the parameter and its detail level asks for the update. -/
def concerns (p : ValueSet) : Bool := client.authz.readAuthz p.descriptor && client.selects p

end Client

namespace Connection

def isCancelled (c : Connection) : Bool := c.closed || c.shutdown || c.expired

/-- `Connect::updateResponse_`. -/
def updateResponse (client : Client) (c : Connection) (p : ValueSet) : Connection :=
  if c.isCancelled then { c with hasUpdate := true }
  else if client.authz.readAuthz p.descriptor then
    if client.selects p then
      let written := client.serialise p
      let c := { c with res := written.2 }
      if written.1.isOk then { c with hasUpdate := true } else c
    else c
  else c

/-- One turn of a writer loop that waits for `hasUpdate_`; `expire` is what the transport does
when the token has expired. -/
def proceedWrite (expire : Connection → Connection) (c : Connection) : Connection :=
  if c.finished || !c.hasUpdate then c
  else
    let c := { c with hasUpdate := false }
    if c.closed then { c with finished := true }
    else if c.shutdown then
      { c with finished := true, written := c.written ++ [.finish .cancelled] }
    else if c.expired then
      let c := expire c
      { c with finished := true, written := c.written ++ [.finish .unauthenticated] }
    else { c with written := c.written ++ [.update c.res] }

/-- The gRPC `Connect::proceed`, state `kWrite`. -/
def proceedGrpc : Connection → Connection := proceedWrite id

/-- The write loop of the REST `Connect::proceed`. -/
def proceedRest : Connection → Connection := proceedWrite fun c => { c with shutdown := true }

/-- `Connect::shutdown`. -/
def shutDown (c : Connection) : Connection := { c with shutdown := true, hasUpdate := true }

end Connection

inductive Transport where
  | grpc
  | rest

def Transport.proceed : Transport → Connection → Connection
  | .grpc => Connection.proceedGrpc
  | .rest => Connection.proceedRest

/-- What can happen to a connection. -/
inductive PushEvent where
  | valueSet (p : ValueSet)
  | wake
  | shutdown
  | close
  | expire

namespace Connection

variable (transport : Transport) (client : Client)

def push (c : Connection) : PushEvent → Connection
  | .valueSet p => c.updateResponse client p
  | .wake => transport.proceed c
  | .shutdown => c.shutDown
  | .close => { c with closed := true }
  | .expire => { c with expired := true }

def runPush (c : Connection) (events : List PushEvent) : Connection :=
  events.foldl (push transport client) c

end Connection

/-- The updates a run owes the client: those it may read, its detail level asks for and whose
serialisation succeeds, in signal order. -/
def due (client : Client) : List PushEvent → List Response
  | [] => []
  | .valueSet p :: events =>
      if client.concerns p && (client.serialise p).1.isOk then
        .update (client.serialise p).2 :: due client events
      else due client events
  | _ :: events => due client events

def Connection.pending (c : Connection) : List Response := if c.hasUpdate then [.update c.res] else []

/-- No update is lost, repeated or out of order: what has been written and what is pending is
what is due, and the next turn of the writer leaves nothing pending. -/
def NoUpdateLost (transport : Transport) (client : Client) (events : List PushEvent) : Prop :=
  let c := Connection.runPush transport client {} events
  c.written ++ c.pending = due client events ∧ (transport.proceed c).written = due client events

/-- Updates come one at a time: the client stays connected, and a signal that concerns it comes
only when no update is pending. -/
def OneAtATime (transport : Transport) (client : Client) : Connection → List PushEvent → Prop
  | _, [] => True
  | c, event :: events =>
      (match event with
        | .valueSet p => client.concerns p = true → c.hasUpdate = false
        | .wake => True
        | .shutdown | .close | .expire => False) ∧
      OneAtATime transport client (c.push transport client event) events

namespace Connection

variable {transport : Transport} {client : Client}

/-- The client is connected and the writer loop is running. -/
structure Connected (c : Connection) : Prop where
  opened : c.closed = false
  running : c.shutdown = false
  valid : c.expired = false
  writing : c.finished = false

variable (client) in
/-- What a signal does to a connected client: nothing if it does not concern it, otherwise it
takes the slot, and raises the flag if it could be serialised. -/
theorem updateResponse_cases {c : Connection} (hc : c.Connected) (p : ValueSet) :
    (client.concerns p = false ∧ c.updateResponse client p = c) ∨
    (client.concerns p = true ∧ (client.serialise p).1.isOk = true ∧
      c.updateResponse client p = { c with res := (client.serialise p).2, hasUpdate := true }) ∨
    (client.concerns p = true ∧ (client.serialise p).1.isOk = false ∧
      c.updateResponse client p = { c with res := (client.serialise p).2 }) := by
  have hcancel : c.isCancelled = false := by
    simp [isCancelled, hc.opened, hc.running, hc.valid]
  simp only [updateResponse, hcancel, Client.concerns, Bool.false_eq_true, if_false]
  cases client.authz.readAuthz p.descriptor with
  | false => simp
  | true =>
    cases client.selects p with
    | false => simp
    | true => cases hok : (client.serialise p).1.isOk <;> simp

theorem proceed_connected {c : Connection} (hc : c.Connected) :
    transport.proceed c =
      { c with hasUpdate := false, written := c.written ++ c.pending } := by
  have hwrite (expire : Connection → Connection) :
      proceedWrite expire c = { c with hasUpdate := false, written := c.written ++ c.pending } := by
    obtain ⟨res, hasUpdate, shutdown, closed, expired, finished, written⟩ := c
    obtain ⟨rfl, rfl, rfl, rfl⟩ := hc
    cases hasUpdate <;> simp [proceedWrite, pending]
  cases transport with
  | grpc => exact hwrite id
  | rest => exact hwrite fun c => { c with shutdown := true }

/-- One step of a run in which updates come one at a time. -/
theorem push_due {c : Connection} (hc : c.Connected) {event : PushEvent}
    {events : List PushEvent} (h : OneAtATime transport client c (event :: events)) :
    (c.push transport client event).Connected ∧
      (c.push transport client event).written ++ (c.push transport client event).pending =
        c.written ++ c.pending ++ due client [event] := by
  obtain ⟨hevent, _⟩ := h
  cases event with
  | shutdown | close | expire => exact hevent.elim
  | wake =>
    simp only [push, proceed_connected hc, due, List.append_nil]
    exact ⟨⟨hc.opened, hc.running, hc.valid, hc.writing⟩, by simp [pending]⟩
  | valueSet p =>
    simp only [push, due]
    obtain ⟨hno, heq⟩ | ⟨hyes, hok, heq⟩ | ⟨hyes, hok, heq⟩ :=
      updateResponse_cases client hc p
    · simp [heq, hno, hc]
    · have hidle := hevent hyes
      rw [heq]
      exact ⟨⟨hc.opened, hc.running, hc.valid, hc.writing⟩, by simp [pending, hidle, hyes, hok]⟩
    · have hidle := hevent hyes
      rw [heq]
      exact ⟨⟨hc.opened, hc.running, hc.valid, hc.writing⟩, by simp [pending, hidle, hyes, hok]⟩

theorem due_cons (event : PushEvent) (events : List PushEvent) :
    due client (event :: events) = due client [event] ++ due client events := by
  cases event with
  | valueSet p =>
    simp only [due]
    split <;> rfl
  | wake | shutdown | close | expire => rfl

theorem runPush_due {c : Connection} (hc : c.Connected) {events : List PushEvent}
    (h : OneAtATime transport client c events) :
    (c.runPush transport client events).Connected ∧
      (c.runPush transport client events).written ++ (c.runPush transport client events).pending =
        c.written ++ c.pending ++ due client events := by
  induction events generalizing c with
  | nil => exact ⟨hc, by simp [runPush, due]⟩
  | cons event events ih =>
    obtain ⟨hstep, hwritten⟩ := push_due hc h
    obtain ⟨hrun, hall⟩ := ih hstep h.2
    refine ⟨hrun, hall.trans ?_⟩
    rw [hwritten, due_cons event events, List.append_assoc]

end Connection

theorem OneAtATime.of_append {transport : Transport} {client : Client} {c : Connection}
    {events later : List PushEvent} (h : OneAtATime transport client c (events ++ later)) :
    OneAtATime transport client c events := by
  induction events generalizing c with
  | nil => trivial
  | cons event events ih => exact ⟨h.1, ih h.2⟩

/-- In every run in which updates come one at a time, no update is lost at any point. -/
theorem noUpdateLost_of_oneAtATime (transport : Transport) (client : Client)
    (events : List PushEvent) (h : OneAtATime transport client {} events) :
    ∀ earlier later, events = earlier ++ later → NoUpdateLost transport client earlier := by
  rintro earlier later rfl
  have hstart : Connection.Connected {} := ⟨rfl, rfl, rfl, rfl⟩
  obtain ⟨hc, hdue⟩ := Connection.runPush_due hstart h.of_append
  refine ⟨hdue, ?_⟩
  rw [Connection.proceed_connected hc]
  exact hdue

/-- A parameter of type INT32 that is readable with the default scope. -/
def gainSet (value : Int32) : ValueSet :=
  ⟨"/gain", .elem .int32, ⟨.int32, { oid := "gain" }, [], { defaultScope := "st2138:mon" }⟩, value, 0⟩

/-- A readable struct with a field that needs another scope. -/
def accountSet : ValueSet :=
  ⟨"/account", .elem (.struct (.cons "key" { oid := "key", scope := "st2138:adm" } (.elem .string) .nil)),
    ⟨.struct, { oid := "account" }, [], { defaultScope := "st2138:mon" }⟩, ("secret", ()), 0⟩

def monitor : Client := ⟨⟨false, ["st2138:mon"]⟩, .full, fun slot => some slot, []⟩

theorem noUpdateLost_of_oneAtATime_gain : NoUpdateLost .rest monitor
    [.valueSet (gainSet 1), .wake, .valueSet accountSet, .valueSet (gainSet 2)] :=
  noUpdateLost_of_oneAtATime .rest monitor
    [.valueSet (gainSet 1), .wake, .valueSet accountSet, .valueSet (gainSet 2)]
    ⟨fun _ => rfl, trivial, fun _ => rfl, fun _ => rfl, trivial⟩ _ [] (List.append_nil _).symm

/-- Two updates back to back lose the first, and an update that cannot be serialised wipes out
the one that is pending. -/
theorem pending_update_overwritten :
    ¬NoUpdateLost .grpc monitor [.valueSet (gainSet 1), .valueSet (gainSet 2)] ∧
    ¬NoUpdateLost .grpc monitor [.valueSet (gainSet 1), .valueSet accountSet] := by
  constructor
  · intro h
    have hlength := congrArg List.length h.2
    revert hlength
    decide
  · intro h
    have hwritten : [Response.update (.value 0 "/account" .kindNotSet)] =
        [Response.update (.value 0 "/gain" (.int32Value 1))] := h.2
    simp at hwritten

end Catena.Rpc
