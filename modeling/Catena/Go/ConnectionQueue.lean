import Catena.Framework.Map
import Catena.Framework.Modify
import Catena.Framework.Replay
import Catena.Go.Value

/-!
# The connection queue

Streaming connections are registered under ids and receive updates through a buffered channel.
A shutdown takes a snapshot of the connections and starts one goroutine for each of them; that
goroutine closes the connection's `Done` channel, starts a watchdog and waits on a condition
variable until the connection has gone. The watchdog removes the connection when the context
expires. Whatever happens while the mutex is held is one event.
-/

namespace Catena.Go

open Catena.Framework

/-- The identity of a transport. -/
abbrev Transport : Type := Nat

/-- The part of a `HandlerContext` that decides what may be read. -/
structure HandlerContext where
  authzEnabled : Bool
  readScopes : List String

def HandlerContext.hasReadScope (ctx : HandlerContext) (scopeName : String) : Bool :=
  !ctx.authzEnabled || ctx.readScopes.contains scopeName

/-- A pointer to a `protos.PushUpdates`. The kinds that are neither values nor slots are only
passed on. -/
inductive PushUpdates where
  | nil
  | value (slot : UInt32) (oid : String) (value : Protos.Value)
  | slotsAdded (slots : List UInt32)
  | otherKind

def isValueUpdate : PushUpdates → Bool
  | .value .. => true
  | _ => false

/-- A connection. What has been put into the channel so far, each with the scope it was notified
under, whether an update has been dropped and how often `Done` has been closed is kept for the
statements only. -/
structure Connection where
  id : Nat
  handlerContext : HandlerContext
  owner : Transport
  updates : List PushUpdates := []
  sent : List (PushUpdates × String) := []
  overflowed : Bool := false
  closes : Nat := 0

namespace Connection

/-- A send that does not block: a full channel drops the update. -/
def send (update : PushUpdates) (scope : String) (conn : Connection) : Connection :=
  if conn.updates.length < 100 then
    { conn with updates := conn.updates ++ [update], sent := conn.sent ++ [(update, scope)] }
  else { conn with overflowed := true }

/-- What `notifyUpdate` does with one connection. -/
def notify (update : PushUpdates) (scope : String) (conn : Connection) : Connection :=
  if isValueUpdate update && scope ≠ "" && !conn.handlerContext.hasReadScope scope then conn
  else conn.send update scope

/-- The connection's goroutine takes an update. -/
def receive (conn : Connection) : Connection := { conn with updates := conn.updates.tail }

/-- Close `Done` unless it is closed. -/
def closeDone (conn : Connection) : Connection :=
  if conn.closes = 0 then { conn with closes := conn.closes + 1 } else conn

end Connection

/-- `connectionQueue`. The map holds pointers, which are positions in the list of all
connections ever made. -/
structure ConnectionQueue where
  all : List Connection := []
  connections : AddressMap Nat := ∅
  nextConnID : Nat := 0
  maxConnections : Int
  shuttingDown : Bool := false

namespace ConnectionQueue

def connectionCount (cq : ConnectionQueue) : Nat := cq.connections.entries.length

def setMaxConnections (cq : ConnectionQueue) (max : Int) : ConnectionQueue :=
  { cq with maxConnections := max }

/-- The queue with a new connection, which is sent the initial update if there is one. -/
def addConnection (cq : ConnectionQueue) (owner : Transport) (handlerContext : HandlerContext)
    (initialUpdate : PushUpdates) : ConnectionQueue :=
  let conn : Connection := { id := cq.nextConnID + 1, handlerContext, owner }
  let conn := match initialUpdate with
    | .nil => conn
    | update => conn.send update ""
  { cq with
    all := cq.all ++ [conn]
    connections := cq.connections.insert (cq.nextConnID + 1) cq.all.length
    nextConnID := cq.nextConnID + 1 }

/-- `registerOwnedConnection`: the pointer to the new connection, and the queue. -/
def registerOwnedConnection (cq : ConnectionQueue) (owner : Transport)
    (handlerContext : HandlerContext) (initialUpdate : PushUpdates) :
    Except StatusResult (Nat × ConnectionQueue) :=
  if cq.shuttingDown then .error ⟨.internal, "Server is shutting down"⟩
  else if 0 < cq.maxConnections ∧ cq.maxConnections ≤ cq.connectionCount then
    .error ⟨.resourceExhausted, "Maximum connections reached"⟩
  else .ok (cq.all.length, cq.addConnection owner handlerContext initialUpdate)

/-- `deregisterConnection` without the broadcast. -/
def deregisterConnection (cq : ConnectionQueue) (connID : Nat) : ConnectionQueue :=
  { cq with connections := cq.connections.erase connID }

def notifyUpdate (cq : ConnectionQueue) (update : PushUpdates) (scope : String) :
    ConnectionQueue :=
  { cq with
    all := modifyAll (Connection.notify update scope) (cq.connections.entries.map Sigma.snd) cq.all }

/-- The connections a shutdown takes a snapshot of: all of them, or those of one owner. -/
def snapshot (cq : ConnectionQueue) (owner : Option Transport) : List Nat :=
  (cq.connections.entries.map Sigma.snd).filter fun conn =>
    match owner with
    | none => true
    | some owner => cq.all[conn]?.any fun conn => conn.owner = owner

def connID (cq : ConnectionQueue) (conn : Nat) : Option Nat := cq.all[conn]?.map Connection.id

end ConnectionQueue

/-- Where a goroutine that runs `shutdownConnection` is. -/
inductive Phase where
  | spawned
  | waiting
  | woken
  | finished
  deriving DecidableEq, Repr

inductive Watchdog where
  | notStarted
  | armed
  | exited
  deriving DecidableEq, Repr

/-- A goroutine started by a shutdown. -/
structure Worker where
  connection : Nat
  phase : Phase := .spawned
  watchdog : Watchdog := .notStarted

/-- `cond.Broadcast` as one goroutine sees it. -/
def Worker.wake (w : Worker) : Worker :=
  if w.phase = .waiting then { w with phase := .woken } else w

/-- A call to `shutdownOwner`, or to `shutdown` if there is no owner. -/
structure ShutdownCall where
  owner : Option Transport
  workers : List Worker
  ctxDone : Bool := false
  returned : Bool := false

structure QueueState where
  queue : ConnectionQueue
  calls : List ShutdownCall := []

namespace QueueState

def broadcast (s : QueueState) : QueueState :=
  { s with calls := s.calls.map fun call => { call with workers := call.workers.map Worker.wake } }

/-- Take a connection out of the queue and wake all who wait. -/
def remove (s : QueueState) (connID : Nat) : QueueState :=
  { s with queue := s.queue.deregisterConnection connID }.broadcast

def deregisterConnection (s : QueueState) (connID : Nat) : QueueState :=
  if connID ∈ s.queue.connections then s.remove connID else s

/-- The first part of `shutdown` and `shutdownOwner`, up to the start of the goroutines. -/
def startShutdown (s : QueueState) (owner : Option Transport) : QueueState where
  queue := if owner.isNone then { s.queue with shuttingDown := true } else s.queue
  calls := s.calls ++ [{ owner, workers := (s.queue.snapshot owner).map fun connection => { connection } }]

def worker (s : QueueState) (call worker : Nat) : Option Worker :=
  s.calls[call]?.bind fun call => call.workers[worker]?

def setWorker (s : QueueState) (call worker : Nat) (w : Worker) : QueueState :=
  { s with calls := s.calls.modify call fun call =>
      { call with workers := call.workers.set worker w } }

/-- The loop of `shutdownConnection`: finish if the connection has gone, else wait. -/
def check (s : QueueState) (call worker : Nat) (w : Worker) : QueueState :=
  let gone := match s.queue.connID w.connection with
    | none => true
    | some connID => decide (connID ∉ s.queue.connections)
  s.setWorker call worker { w with phase := if gone then .finished else .waiting }

/-- `shutdownConnection` up to its first wait. -/
def enter (s : QueueState) (call worker : Nat) (w : Worker) : QueueState :=
  let queue := { s.queue with all := s.queue.all.modify w.connection Connection.closeDone }
  { s with queue }.check call worker { w with watchdog := .armed }

/-- The watchdog closes the connection by force. -/
def force (s : QueueState) (call worker : Nat) (w : Worker) : QueueState :=
  let s := s.setWorker call worker { w with watchdog := .exited }
  match s.queue.connID w.connection with
  | none => s
  | some connID => s.remove connID

end QueueState

/-- What can happen next. A context may expire at any time, and a watchdog that finds both its
channels ready may take either. -/
inductive QueueEvent where
  | register (owner : Transport) (handlerContext : HandlerContext) (initialUpdate : PushUpdates)
  | deregister (connID : Nat)
  | setMaxConnections (max : Int)
  | notify (update : PushUpdates) (scope : String)
  | receive (conn : Nat)
  | startShutdown (owner : Option Transport)
  | enter (call worker : Nat)
  | recheck (call worker : Nat)
  | expire (call : Nat)
  | force (call worker : Nat)
  | dismiss (call worker : Nat)
  | finish (call : Nat)

namespace QueueEvent

/-- The state after an event, `none` if the event cannot happen. -/
def exec : QueueEvent → QueueState → Option QueueState
  | .register owner handlerContext initialUpdate, s =>
      match s.queue.registerOwnedConnection owner handlerContext initialUpdate with
      | .error _ => some s
      | .ok (_, queue) => some { s with queue }
  | .deregister connID, s => some (s.deregisterConnection connID)
  | .setMaxConnections max, s => some { s with queue := s.queue.setMaxConnections max }
  | .notify update scope, s => some { s with queue := s.queue.notifyUpdate update scope }
  | .receive conn, s =>
      some { s with queue := { s.queue with all := s.queue.all.modify conn Connection.receive } }
  | .startShutdown owner, s => some (s.startShutdown owner)
  | .enter call worker, s =>
      (s.worker call worker).bind fun w =>
        if w.phase = .spawned then some (s.enter call worker w) else none
  | .recheck call worker, s =>
      (s.worker call worker).bind fun w =>
        if w.phase = .woken then some (s.check call worker w) else none
  | .expire call, s =>
      some { s with calls := s.calls.modify call fun call => { call with ctxDone := true } }
  | .force call worker, s =>
      (s.worker call worker).bind fun w =>
        if w.watchdog = .armed ∧ (s.calls[call]?.any ShutdownCall.ctxDone) then
          some (s.force call worker w)
        else none
  | .dismiss call worker, s =>
      (s.worker call worker).bind fun w =>
        if w.watchdog = .armed ∧ w.phase = .finished then
          some (s.setWorker call worker { w with watchdog := .exited })
        else none
  | .finish call, s =>
      if s.calls[call]?.any fun call => call.workers.all fun w => w.phase = .finished then
        some { s with calls := s.calls.modify call fun call => { call with returned := true } }
      else none

end QueueEvent

/-- `newConnectionQueue`. -/
def newConnectionQueue (maxConnections : Int) : QueueState where
  queue := { maxConnections }

end Catena.Go
