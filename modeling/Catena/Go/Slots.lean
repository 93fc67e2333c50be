import Catena.Go.ConnectionQueue

/-!
# Announcing slots

Registering a handler adds its slot under the mutex of the server and tells the connections
about a new slot afterwards, under the mutex of the queue. A connection reads the slots and
joins the queue while it holds the mutex of the server, so that every slot is either in what it
read or announced after it has joined.
-/

namespace Catena.Go

open Catena.Framework

/-- The maps of handlers. -/
inductive HandlerKind where
  | getDevice
  | getValue
  | setValue
  | getAsset
  | executeCommand
  | paramInfo
  | heartbeat
  deriving DecidableEq, Repr

/-- A connection that is being registered: the slots have been read, and the mutex of the server
is held. -/
structure Connecting where
  transport : Transport
  handlerContext : HandlerContext
  slots : List UInt16

/-- The part of `server` that knows slots, with the calls that are under way: the new slots not
announced yet, and the connection that holds the mutex. A handler is named by a number. -/
structure SlotState where
  slots : List UInt16 := []
  handlers : HandlerKind → UInt16 → Option Nat := fun _ _ => none
  queue : QueueState
  announcing : List UInt16 := []
  connecting : Option Connecting := none

namespace SlotState

def registerSlotLocked (s : SlotState) (slot : UInt16) : Bool × SlotState :=
  if slot ∈ s.slots then (false, s) else (true, { s with slots := s.slots ++ [slot] })

/-- A `Register*Handler` call up to the release of the mutex. -/
def registerHandler (s : SlotState) (kind : HandlerKind) (slot : UInt16) (handler : Nat) :
    SlotState :=
  let handlers := Function.update (s.handlers kind) slot (some handler)
  let s := { s with handlers := Function.update s.handlers kind handlers }
  let registered := s.registerSlotLocked slot
  if registered.1 then { registered.2 with announcing := registered.2.announcing ++ [slot] }
  else registered.2

def registerGetDeviceHandler (s : SlotState) := s.registerHandler .getDevice
def registerGetValueHandler (s : SlotState) := s.registerHandler .getValue
def registerSetValueHandler (s : SlotState) := s.registerHandler .setValue
def registerGetAssetHandler (s : SlotState) := s.registerHandler .getAsset
def registerExecuteCommandHandler (s : SlotState) := s.registerHandler .executeCommand
def registerParamInfoHandler (s : SlotState) := s.registerHandler .paramInfo
def registerHeartbeatHandler (s : SlotState) := s.registerHandler .heartbeat

def withQueue (s : SlotState) (queue : ConnectionQueue) : SlotState :=
  { s with queue := { s.queue with queue } }

def notifySlotsAdded (s : SlotState) (slot : UInt16) : SlotState :=
  s.withQueue (s.queue.queue.notifyUpdate (.slotsAdded [slot.toUInt32]) "")

/-- The end of `RegisterTransportConnection`: the connection joins the queue, and the mutex is
released. -/
def join (s : SlotState) (c : Connecting) : SlotState :=
  let s := { s with connecting := none }
  match s.queue.queue.registerOwnedConnection c.transport c.handlerContext
      (.slotsAdded (c.slots.map UInt16.toUInt32)) with
  | .error _ => s
  | .ok (_, queue) => s.withQueue queue

end SlotState

/-- The events of the queue that the server does not cause by announcing slots. Values are
broadcast by `BroadcastUpdate`. -/
def QueueEvent.isBackground : QueueEvent → Bool
  | .register .. => false
  | .notify update _ => isValueUpdate update
  | _ => true

inductive SlotEvent where
  | registerHandler (kind : HandlerKind) (slot : UInt16) (handler : Nat)
  | announce (call : Nat)
  | connect (transport : Transport) (handlerContext : HandlerContext)
  | join
  | queue (e : QueueEvent)

namespace SlotEvent

/-- The state after an event, `none` if it cannot happen. Adding a slot and reading the slots
need the mutex of the server. -/
def exec : SlotEvent → SlotState → Option SlotState
  | .registerHandler kind slot handler, s =>
      if s.connecting.isNone then some (s.registerHandler kind slot handler) else none
  | .announce call, s =>
      s.announcing[call]?.map fun slot =>
        { s.notifySlotsAdded slot with announcing := s.announcing.eraseIdx call }
  | .connect transport handlerContext, s =>
      if s.connecting.isNone then
        some { s with connecting := some ⟨transport, handlerContext, s.slots⟩ }
      else none
  | .join, s => s.connecting.map s.join
  | .queue e, s =>
      if e.isBackground then (e.exec s.queue).map fun queue => { s with queue } else none

end SlotEvent

def Connection.announced (conn : Connection) : List UInt32 :=
  conn.sent.flatMap fun sent =>
    match sent.1 with
    | .slotsAdded slots => slots
    | _ => []

namespace Connection

theorem announced_send (update : PushUpdates) (scope : String) (conn : Connection) :
    (conn.send update scope).overflowed = true ∨
      (conn.send update scope).announced = conn.announced ++
        match update with
        | .slotsAdded slots => slots
        | _ => [] := by
  simp only [send]
  split
  · right
    simp [announced]
  · exact .inl rfl

theorem overflowed_send (update : PushUpdates) (scope : String) {conn : Connection}
    (h : conn.overflowed = true) : (conn.send update scope).overflowed = true := by
  simp only [send]
  split
  · exact h
  · rfl

/-- A connection keeps what it has been sent, and remembers that it has overflowed. -/
structure Keeps (conn conn' : Connection) : Prop where
  announced : conn'.announced = conn.announced
  overflowed : conn.overflowed = true → conn'.overflowed = true

theorem keeps_notify {update : PushUpdates} (h : isValueUpdate update = true) (scope : String)
    (conn : Connection) : conn.Keeps (conn.notify update scope) := by
  simp only [notify]
  split
  · exact ⟨rfl, fun h => h⟩
  · refine ⟨?_, overflowed_send update scope⟩
    cases update with
    | value slot oid value =>
      simp only [send, announced]
      split
      · simp
      · rfl
    | nil | slotsAdded slots | otherKind => cases h

theorem keeps_closeDone (conn : Connection) : conn.Keeps conn.closeDone := by
  simp only [closeDone]
  split <;> exact ⟨rfl, fun h => h⟩

end Connection

/-- Every connection of the second list was in the first, where it had been sent as much. -/
def KeepsAll (all all' : List Connection) : Prop :=
  ∀ (i : Nat) (conn' : Connection), all'[i]? = some conn' →
    ∃ conn, all[i]? = some conn ∧ conn.Keeps conn'

theorem keepsAll_refl (all : List Connection) : KeepsAll all all :=
  fun _ conn hconn => ⟨conn, hconn, rfl, fun h => h⟩

theorem keepsAll_modify {f : Connection → Connection}
    (hf : ∀ conn : Connection, conn.Keeps (f conn)) (i : Nat) (all : List Connection) :
    KeepsAll all (all.modify i f) := by
  intro j conn' hconn'
  rw [List.getElem?_modify] at hconn'
  obtain ⟨conn, hconn, rfl⟩ := Option.map_eq_some_iff.mp hconn'
  refine ⟨conn, hconn, ?_⟩
  split
  · exact hf conn
  · exact ⟨rfl, fun h => h⟩

theorem KeepsAll.trans {all all' all'' : List Connection} (h : KeepsAll all all')
    (h' : KeepsAll all' all'') : KeepsAll all all'' := by
  intro i conn'' hconn''
  obtain ⟨conn', hconn', hkeeps'⟩ := h' i conn'' hconn''
  obtain ⟨conn, hconn, hkeeps⟩ := h i conn' hconn'
  exact ⟨conn, hconn, hkeeps'.announced.trans hkeeps.announced,
    fun hover => hkeeps'.overflowed (hkeeps.overflowed hover)⟩

theorem keepsAll_modifyAll {f : Connection → Connection}
    (hf : ∀ conn : Connection, conn.Keeps (f conn)) (is : List Nat) (all : List Connection) :
    KeepsAll all (modifyAll f is all) := by
  induction is generalizing all with
  | nil => exact keepsAll_refl all
  | cons i is ih => exact (keepsAll_modify hf i all).trans (ih (all.modify i f))

/-- The queue has lost connections at most, and none has been sent slots. -/
structure Undisturbed (cq cq' : ConnectionQueue) : Prop where
  all : KeepsAll cq.all cq'.all
  connections : ∀ id conn, cq'.connections.lookup id = some conn →
    cq.connections.lookup id = some conn

theorem undisturbed_of_eq {cq cq' : ConnectionQueue} (hall : cq'.all = cq.all)
    (hconnections : cq'.connections = cq.connections) : Undisturbed cq cq' := by
  refine ⟨?_, ?_⟩
  · rw [hall]
    exact keepsAll_refl cq.all
  · intro id conn hconn
    rw [← hconnections]
    exact hconn

theorem undisturbed_deregister (cq : ConnectionQueue) (connID : Nat) :
    Undisturbed cq (cq.deregisterConnection connID) := by
  refine ⟨keepsAll_refl cq.all, ?_⟩
  intro id conn hconn
  by_cases hid : id = connID
  · subst hid
    cases (AList.lookup_erase _ _).symm.trans hconn
  · exact (AList.lookup_erase_ne hid).symm.trans hconn

/-- The background events send no slots and register nobody. -/
theorem undisturbed_exec {e : QueueEvent} (he : e.isBackground = true) {s s' : QueueState}
    (hexec : e.exec s = some s') : Undisturbed s.queue s'.queue := by
  cases e with
  | register owner handlerContext initialUpdate => cases he
  | deregister connID =>
    obtain rfl := Option.some.inj hexec
    simp only [QueueState.deregisterConnection]
    split
    · exact undisturbed_deregister s.queue connID
    · exact undisturbed_of_eq rfl rfl
  | setMaxConnections max | expire i =>
    obtain rfl := Option.some.inj hexec
    exact undisturbed_of_eq rfl rfl
  | notify update scope =>
    obtain rfl := Option.some.inj hexec
    exact ⟨keepsAll_modifyAll (Connection.keeps_notify he scope) _ _, fun _ _ h => h⟩
  | receive conn =>
    obtain rfl := Option.some.inj hexec
    exact ⟨keepsAll_modify (f := Connection.receive) (fun _ => ⟨rfl, fun h => h⟩) conn _,
      fun _ _ h => h⟩
  | startShutdown owner =>
    obtain rfl := Option.some.inj hexec
    simp only [QueueState.startShutdown]
    split <;> exact undisturbed_of_eq rfl rfl
  | enter i j =>
    obtain ⟨w, _, _, rfl⟩ := exists_of_guarded hexec
    exact ⟨keepsAll_modify Connection.keeps_closeDone w.connection _, fun _ _ h => h⟩
  | recheck i j | dismiss i j =>
    obtain ⟨w, _, _, rfl⟩ := exists_of_guarded hexec
    exact undisturbed_of_eq rfl rfl
  | force i j =>
    obtain ⟨w, _, _, rfl⟩ := exists_of_guarded hexec
    simp only [QueueState.force]
    split
    · exact undisturbed_of_eq rfl rfl
    · exact undisturbed_deregister s.queue _
  | finish i =>
    simp only [QueueEvent.exec] at hexec
    split at hexec
    · obtain rfl := Option.some.inj hexec
      exact undisturbed_of_eq rfl rfl
    · cases hexec

namespace SlotState

/-- Every registered connection that has not overflowed has been sent each slot, unless the
slot's announcement is still to come. -/
structure Inv (s : SlotState) : Prop where
  told : ∀ id conn c, s.queue.queue.connections.lookup id = some conn →
    s.queue.queue.all[conn]? = some c → c.overflowed = false → ∀ slot ∈ s.slots,
      slot.toUInt32 ∈ c.announced ∨ slot ∈ s.announcing
  registered : ∀ c ∈ s.queue.queue.all, ∀ x ∈ c.announced, ∃ slot ∈ s.slots, x = slot.toUInt32
  announcing : ∀ slot ∈ s.announcing, slot ∈ s.slots
  /-- Nobody can add a slot while a connection holds the mutex. -/
  connecting : ∀ c, s.connecting = some c → c.slots = s.slots

theorem Inv.queue {s : SlotState} (h : s.Inv) {queue : QueueState}
    (hqueue : Undisturbed s.queue.queue queue.queue) : ({ s with queue } : SlotState).Inv := by
  refine ⟨?_, ?_, h.announcing, h.connecting⟩
  · intro id conn c hlookup hc hover slot hslot
    obtain ⟨c₀, hc₀, hkeeps⟩ := hqueue.all conn c hc
    have hover₀ : c₀.overflowed = false := by
      by_contra hover₀
      have htrue := hkeeps.overflowed (by simpa using hover₀)
      cases hover.symm.trans htrue
    rw [hkeeps.announced]
    exact h.told id conn c₀ (hqueue.connections id conn hlookup) hc₀ hover₀ slot hslot
  · intro c hc x hx
    obtain ⟨i, hi⟩ := List.mem_iff_getElem?.mp hc
    obtain ⟨c₀, hc₀, hkeeps⟩ := hqueue.all i c hi
    rw [hkeeps.announced] at hx
    exact h.registered c₀ (List.mem_of_getElem? hc₀) x hx

theorem Inv.registerHandler {s : SlotState} (h : s.Inv) (hfree : s.connecting = none)
    (kind : HandlerKind) (slot : UInt16) (handler : Nat) :
    (s.registerHandler kind slot handler).Inv := by
  simp only [SlotState.registerHandler, registerSlotLocked]
  by_cases hslot : slot ∈ s.slots
  · simp only [hslot, if_true, Bool.false_eq_true, if_false]
    exact ⟨h.told, h.registered, h.announcing, h.connecting⟩
  · simp only [hslot, if_false, if_true]
    refine ⟨?_, ?_, ?_, ?_⟩
    · intro id conn c hlookup hc hover slot' hslot'
      rcases List.mem_append.mp hslot' with hold | hnew
      · exact (h.told id conn c hlookup hc hover slot' hold).imp_right
          fun hmem => List.mem_append_left _ hmem
      · exact .inr (List.mem_append_right _ hnew)
    · intro c hc x hx
      obtain ⟨slot', hslot', hx⟩ := h.registered c hc x hx
      exact ⟨slot', List.mem_append_left _ hslot', hx⟩
    · intro slot' hslot'
      rcases List.mem_append.mp hslot' with hold | hnew
      · exact List.mem_append_left _ (h.announcing slot' hold)
      · exact List.mem_append_right _ hnew
    · intro c hc
      cases hfree.symm.trans hc

theorem announced_iterate (slot : UInt32) (n : Nat) (c : Connection) :
    (c.overflowed = true → ((Connection.notify (.slotsAdded [slot]) "")^[n] c).overflowed = true) ∧
    (((Connection.notify (.slotsAdded [slot]) "")^[n] c).overflowed = true ∨
      ((Connection.notify (.slotsAdded [slot]) "")^[n] c).announced =
        c.announced ++ List.replicate n slot) := by
  induction n generalizing c with
  | zero => exact ⟨fun h => h, .inr (by simp)⟩
  | succ n ih =>
    rw [Function.iterate_succ_apply]
    have hnotify : c.notify (.slotsAdded [slot]) "" = c.send (.slotsAdded [slot]) "" := rfl
    obtain ⟨hkeeps, hrest⟩ := ih (c.notify (.slotsAdded [slot]) "")
    rw [hnotify] at hkeeps hrest ⊢
    refine ⟨fun h => hkeeps (Connection.overflowed_send _ _ h), ?_⟩
    rcases Connection.announced_send (.slotsAdded [slot]) "" c with hover | hsent
    · exact .inl (hkeeps hover)
    · refine hrest.imp_right fun hannounced => ?_
      rw [hannounced, hsent, List.append_assoc]
      rfl

theorem Inv.notifySlotsAdded {s : SlotState} (h : s.Inv) {call : Nat} {slot : UInt16}
    (hslot : s.announcing[call]? = some slot) :
    ({ s.notifySlotsAdded slot with announcing := s.announcing.eraseIdx call } : SlotState).Inv := by
  have hmem : slot ∈ s.slots := h.announcing slot (List.mem_of_getElem? hslot)
  refine ⟨?_, ?_, ?_, h.connecting⟩
  · intro id conn c hlookup hc hover slot' hslot'
    change (modifyAll _ _ _)[conn]? = some c at hc
    rw [getElem?_modifyAll] at hc
    obtain ⟨c₀, hc₀, rfl⟩ := Option.map_eq_some_iff.mp hc
    have hin : conn ∈ s.queue.queue.connections.entries.map Sigma.snd :=
      List.mem_map_of_mem (f := Sigma.snd) (AList.mem_lookup_iff.mp hlookup)
    have hcount := List.count_pos_iff.mpr hin
    obtain ⟨hkeeps, hsent⟩ := announced_iterate slot.toUInt32
      ((s.queue.queue.connections.entries.map Sigma.snd).count conn) c₀
    have hover₀ : c₀.overflowed = false := by
      by_contra hover₀
      cases hover.symm.trans (hkeeps (by simpa using hover₀))
    have hannounced := hsent.resolve_left fun htrue => by cases hover.symm.trans htrue
    rw [hannounced]
    by_cases hsame : slot' = slot
    · subst hsame
      exact .inl (List.mem_append_right _ (List.mem_replicate.mpr ⟨by omega, rfl⟩))
    · refine (h.told id conn c₀ hlookup hc₀ hover₀ slot' hslot').imp
        (fun hold => List.mem_append_left _ hold) fun hpending => ?_
      obtain ⟨i, hi⟩ := List.mem_iff_getElem?.mp hpending
      refine List.mem_eraseIdx_iff_getElem?.mpr ⟨i, ?_, hi⟩
      rintro rfl
      exact hsame (Option.some.inj (hi.symm.trans hslot))
  · refine forall_mem_modifyAll (fun c hc => ?_) _ h.registered
    intro x hx
    change x ∈ (c.send (.slotsAdded [slot.toUInt32]) "").announced at hx
    simp only [Connection.send] at hx
    split at hx
    · simp only [Connection.announced, List.flatMap_append, List.flatMap_singleton] at hx
      rcases List.mem_append.mp hx with hold | hnew
      · exact hc x hold
      · exact ⟨slot, hmem, List.mem_singleton.mp hnew⟩
    · exact hc x hx
  · intro slot' hslot'
    exact h.announcing slot' (List.mem_of_mem_eraseIdx hslot')

theorem registerOwnedConnection_slots {cq queue : ConnectionQueue} {owner : Transport}
    {handlerContext : HandlerContext} {slots : List UInt32} {conn : Nat}
    (h : cq.registerOwnedConnection owner handlerContext (.slotsAdded slots) = .ok (conn, queue)) :
    ∃ new : Connection, queue.all = cq.all ++ [new] ∧ new.announced = slots ∧
      ∀ id conn, queue.connections.lookup id = some conn → conn = cq.all.length ∨
        cq.connections.lookup id = some conn := by
  simp only [ConnectionQueue.registerOwnedConnection] at h
  split at h
  · cases h
  · split at h
    · cases h
    · cases h
      refine ⟨_, rfl, ?_, ?_⟩
      · simp [Connection.announced, Connection.send]
      · intro id conn hconn
        by_cases hid : id = cq.nextConnID + 1
        · subst hid
          have heq : some cq.all.length = some conn := (AList.lookup_insert _).symm.trans hconn
          exact .inl (Option.some.inj heq).symm
        · exact .inr ((AList.lookup_insert_ne hid).symm.trans hconn)

theorem Inv.join {s : SlotState} (h : s.Inv) {c : Connecting} (hc : s.connecting = some c) :
    (s.join c).Inv := by
  have hslots := h.connecting c hc
  simp only [SlotState.join]
  split
  · exact ⟨h.told, h.registered, h.announcing, fun _ hnone => by cases hnone⟩
  · rename_i conn queue hres
    obtain ⟨new, hall, hnew, hconnections⟩ := registerOwnedConnection_slots hres
    have hall : (s.queue.queue.all ++ [new]) = queue.all := hall.symm
    refine ⟨?_, ?_, h.announcing, fun _ hnone => by cases hnone⟩
    · intro id i c' hlookup hc' hover slot hslot
      change queue.all[i]? = some c' at hc'
      rw [← hall] at hc'
      rcases Nat.lt_or_ge i s.queue.queue.all.length with hlt | hge
      · rw [List.getElem?_append_left hlt] at hc'
        have hlookup := (hconnections id i hlookup).resolve_left (Nat.ne_of_lt hlt)
        exact h.told id i c' hlookup hc' hover slot hslot
      · left
        rw [List.getElem?_append_right hge] at hc'
        obtain rfl := List.mem_singleton.mp (List.mem_of_getElem? hc')
        rw [hnew, hslots]
        exact List.mem_map_of_mem hslot
    · intro c' hc' x hx
      change c' ∈ queue.all at hc'
      rw [← hall] at hc'
      rcases List.mem_append.mp hc' with hold | hc'
      · exact h.registered c' hold x hx
      · obtain rfl := List.mem_singleton.mp hc'
        rw [hnew, hslots] at hx
        obtain ⟨slot, hslot, rfl⟩ := List.mem_map.mp hx
        exact ⟨slot, hslot, rfl⟩

end SlotState

theorem SlotEvent.exec_inv (e : SlotEvent) (s s' : SlotState) (h : s.Inv)
    (hexec : e.exec s = some s') : s'.Inv := by
  cases e with
  | registerHandler kind slot handler =>
    simp only [exec] at hexec
    split at hexec
    · rename_i hfree
      obtain rfl := Option.some.inj hexec
      exact h.registerHandler (Option.isNone_iff_eq_none.mp hfree) kind slot handler
    · cases hexec
  | announce call =>
    obtain ⟨slot, hslot, rfl⟩ := Option.map_eq_some_iff.mp hexec
    exact h.notifySlotsAdded hslot
  | connect transport handlerContext =>
    simp only [exec] at hexec
    split at hexec
    · obtain rfl := Option.some.inj hexec
      refine ⟨h.told, h.registered, h.announcing, ?_⟩
      intro c hc
      obtain rfl := Option.some.inj hc
      rfl
    · cases hexec
  | join =>
    obtain ⟨c, hc, rfl⟩ := Option.map_eq_some_iff.mp hexec
    exact h.join hc
  | queue e =>
    simp only [exec] at hexec
    split at hexec
    · rename_i hbackground
      obtain ⟨queue, hqueue, rfl⟩ := Option.map_eq_some_iff.mp hexec
      exact h.queue (undisturbed_exec hbackground hqueue)
    · cases hexec

def newSlotState (maxConnections : Int) : SlotState where
  queue := newConnectionQueue maxConnections

theorem newSlotState_inv (maxConnections : Int) : (newSlotState maxConnections).Inv := by
  refine ⟨?_, ?_, ?_, ?_⟩
  · intro id conn c hlookup
    cases hlookup
  · intro c hc
    cases hc
  · intro slot hslot
    cases hslot
  · intro c hc
    cases hc

/-- When no call is under way, every connection that has not overflowed has been sent every
slot; and no connection is ever sent a slot that is not there. -/
theorem slots_announced (maxConnections : Int) (events : List SlotEvent) (s : SlotState)
    (h : replay SlotEvent.exec events (newSlotState maxConnections) = some s) :
    (s.announcing = [] → s.connecting = none → ∀ id conn c,
      s.queue.queue.connections.lookup id = some conn → s.queue.queue.all[conn]? = some c →
        c.overflowed = false → ∀ slot ∈ s.slots, slot.toUInt32 ∈ c.announced) ∧
    ∀ c ∈ s.queue.queue.all, ∀ x ∈ c.announced, ∃ slot ∈ s.slots, x = slot.toUInt32 := by
  have hinv : s.Inv := replay_invariant SlotEvent.exec_inv (newSlotState_inv _) h
  refine ⟨?_, hinv.registered⟩
  intro hannouncing _ id conn c hlookup hc hover slot hslot
  rcases hinv.told id conn c hlookup hc hover slot hslot with htold | hpending
  · exact htold
  · rw [hannouncing] at hpending
    cases hpending

/-- A slot is added before a connection joins and announced afterwards. -/
theorem slots_announced_late :
    ∃ s, replay SlotEvent.exec [.registerHandler .getValue 3 0, .connect 7 ⟨false, []⟩, .join,
      .announce 0] (newSlotState 0) = some s ∧
      ∃ c, s.queue.queue.all[0]? = some c ∧ (3 : UInt16).toUInt32 ∈ c.announced := by
  refine ⟨_, rfl, _, rfl, ?_⟩
  exact (slots_announced 0 [.registerHandler .getValue 3 0, .connect 7 ⟨false, []⟩, .join,
    .announce 0] _ rfl).1 rfl rfl 1 0 _ rfl rfl rfl 3 (List.mem_singleton.mpr rfl)

end Catena.Go
