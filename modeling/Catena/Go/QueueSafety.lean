import Catena.Go.ConnectionQueue

/-!
# Safety of the connection queue

Ids count the connections made so far, so that a pointer and its id determine one another and
an id that has left the map never comes back. This is what makes the forced close of a watchdog
harmless and a finished goroutine's connection stay gone; the connections of a queue that shuts
down are among those of every shutdown's snapshot.
-/

namespace Catena.Go

open Catena.Framework

/-- Every value update in the channel was notified without a scope or under one that the
connection may read. -/
def Connection.Scoped (conn : Connection) : Prop :=
  ∀ update scope, (update, scope) ∈ conn.sent → isValueUpdate update = true → scope ≠ "" →
    conn.handlerContext.hasReadScope scope = true

namespace Connection

@[simp] theorem id_send (update : PushUpdates) (scope : String) (conn : Connection) :
    (conn.send update scope).id = conn.id := by
  simp only [send]
  split <;> rfl

@[simp] theorem id_notify (update : PushUpdates) (scope : String) (conn : Connection) :
    (conn.notify update scope).id = conn.id := by
  simp only [notify]
  split
  · rfl
  · exact id_send update scope conn

@[simp] theorem id_closeDone (conn : Connection) : conn.closeDone.id = conn.id := by
  simp only [closeDone]
  split <;> rfl

theorem closes_notify (update : PushUpdates) (scope : String) (conn : Connection) :
    (conn.notify update scope).closes = conn.closes := by
  simp only [notify, send]
  split
  · rfl
  · split <;> rfl

theorem closes_closeDone {conn : Connection} (h : conn.closes ≤ 1) : conn.closeDone.closes ≤ 1 := by
  simp only [closeDone]
  split
  · rename_i hopen
    simp [hopen]
  · exact h

theorem Scoped.send {conn : Connection} (h : conn.Scoped) {update : PushUpdates} {scope : String}
    (hscope : isValueUpdate update = true → scope ≠ "" →
      conn.handlerContext.hasReadScope scope = true) : (conn.send update scope).Scoped := by
  simp only [Connection.send]
  split
  · intro update' scope' hmem
    rcases List.mem_append.mp hmem with hold | hnew
    · exact h update' scope' hold
    · obtain ⟨rfl, rfl⟩ := Prod.mk.inj (List.mem_singleton.mp hnew)
      exact hscope
  · exact h

theorem Scoped.notify {conn : Connection} (h : conn.Scoped) (update : PushUpdates)
    (scope : String) : (conn.notify update scope).Scoped := by
  simp only [Connection.notify]
  split
  · exact h
  · rename_i hskip
    apply h.send
    intro hvalue hscope
    by_contra hread
    apply hskip
    simp [hvalue, hscope, Bool.eq_false_iff.mpr hread]

theorem Scoped.closeDone {conn : Connection} (h : conn.Scoped) : conn.closeDone.Scoped := by
  simp only [Connection.closeDone]
  split <;> exact h

end Connection

namespace ConnectionQueue

structure Inv (cq : ConnectionQueue) : Prop where
  counted : cq.nextConnID = cq.all.length
  ids : cq.all.map Connection.id = List.range' 1 cq.all.length
  pointers : ∀ id conn, cq.connections.lookup id = some conn → id = conn + 1 ∧ conn < cq.all.length
  closes : ∀ conn ∈ cq.all, conn.closes ≤ 1
  inScope : ∀ conn ∈ cq.all, conn.Scoped

/-- The second queue has no connection that the first has not, and it shuts down if the first
does. -/
structure Shrinks (cq cq' : ConnectionQueue) : Prop where
  length : cq.all.length ≤ cq'.all.length
  connections : ∀ id conn, cq'.connections.lookup id = some conn →
    cq.connections.lookup id = some conn
  shuttingDown : cq.shuttingDown = true → cq'.shuttingDown = true

theorem Inv.connID {cq : ConnectionQueue} (h : cq.Inv) {conn : Nat} (hconn : conn < cq.all.length) :
    cq.connID conn = some (conn + 1) := by
  have hid : (cq.all.map Connection.id)[conn]? = (List.range' 1 cq.all.length)[conn]? := by
    rw [h.ids]
  rw [List.getElem?_map, List.getElem?_range' hconn] at hid
  rw [ConnectionQueue.connID, hid]
  congr 1
  omega

theorem Inv.update {cq : ConnectionQueue} (h : cq.Inv) {all : List Connection}
    (hids : all.map Connection.id = cq.all.map Connection.id)
    (hcloses : ∀ conn ∈ all, conn.closes ≤ 1) (hscoped : ∀ conn ∈ all, conn.Scoped) :
    ({ cq with all } : ConnectionQueue).Inv := by
  have hlength : all.length = cq.all.length := by
    have hmap := congrArg List.length hids
    simpa using hmap
  refine ⟨h.counted.trans hlength.symm, ?_, ?_, hcloses, hscoped⟩
  · rw [hids, h.ids, hlength]
  · intro id conn hconn
    obtain ⟨hid, hlt⟩ := h.pointers id conn hconn
    exact ⟨hid, Nat.lt_of_lt_of_eq hlt hlength.symm⟩

theorem Inv.notifyUpdate {cq : ConnectionQueue} (h : cq.Inv) (update : PushUpdates)
    (scope : String) : (cq.notifyUpdate update scope).Inv := by
  refine h.update (map_modifyAll (Connection.id_notify update scope) _ _) ?_ ?_
  · refine forall_mem_modifyAll (fun conn hconn => ?_) _ h.closes
    rw [Connection.closes_notify]
    exact hconn
  · exact forall_mem_modifyAll (fun conn hconn => hconn.notify update scope) _ h.inScope

theorem Inv.modify {cq : ConnectionQueue} (h : cq.Inv) (conn : Nat) {f : Connection → Connection}
    (hid : ∀ conn, (f conn).id = conn.id)
    (hcloses : ∀ conn : Connection, conn.closes ≤ 1 → (f conn).closes ≤ 1)
    (hscoped : ∀ conn : Connection, conn.Scoped → (f conn).Scoped) :
    ({ cq with all := cq.all.modify conn f } : ConnectionQueue).Inv :=
  h.update (map_modify hid conn cq.all) (forall_mem_modify (fun conn _ => hcloses conn) h.closes)
    (forall_mem_modify (fun conn _ => hscoped conn) h.inScope)

theorem Inv.deregisterConnection {cq : ConnectionQueue} (h : cq.Inv) (connID : Nat) :
    (cq.deregisterConnection connID).Inv := by
  refine ⟨h.counted, h.ids, ?_, h.closes, h.inScope⟩
  intro id conn hconn
  by_cases hid : id = connID
  · subst hid
    cases (AList.lookup_erase _ _).symm.trans hconn
  · exact h.pointers id conn ((AList.lookup_erase_ne hid).symm.trans hconn)

theorem shrinks_deregisterConnection (cq : ConnectionQueue) (connID : Nat) :
    cq.Shrinks (cq.deregisterConnection connID) := by
  refine ⟨Nat.le_refl _, ?_, fun h => h⟩
  intro id conn hconn
  by_cases hid : id = connID
  · subst hid
    cases (AList.lookup_erase _ _).symm.trans hconn
  · exact (AList.lookup_erase_ne hid).symm.trans hconn

theorem registerOwnedConnection_cases (cq : ConnectionQueue) (owner : Transport)
    (handlerContext : HandlerContext) (initialUpdate : PushUpdates) :
    (∃ res, cq.registerOwnedConnection owner handlerContext initialUpdate = .error res) ∨
    (cq.shuttingDown = false ∧
      (0 < cq.maxConnections → (cq.connectionCount : Int) < cq.maxConnections) ∧
      cq.registerOwnedConnection owner handlerContext initialUpdate =
        .ok (cq.all.length, cq.addConnection owner handlerContext initialUpdate)) := by
  simp only [registerOwnedConnection]
  split
  · exact .inl ⟨_, rfl⟩
  · rename_i hdown
    split
    · exact .inl ⟨_, rfl⟩
    · rename_i hroom
      refine .inr ⟨by simpa using hdown, fun hmax => ?_, rfl⟩
      by_contra hfull
      exact hroom ⟨hmax, Int.not_lt.mp hfull⟩

theorem addConnection_all (cq : ConnectionQueue) (owner : Transport)
    (handlerContext : HandlerContext) (initialUpdate : PushUpdates) :
    ∃ conn : Connection, (cq.addConnection owner handlerContext initialUpdate).all = cq.all ++ [conn] ∧
      conn.id = cq.nextConnID + 1 ∧ conn.closes = 0 ∧ conn.Scoped := by
  refine ⟨_, rfl, ?_⟩
  have hnew : ({ id := cq.nextConnID + 1, handlerContext, owner } : Connection).Scoped := by
    intro update scope hmem
    cases hmem
  cases initialUpdate with
  | nil => exact ⟨rfl, rfl, hnew⟩
  | value slot oid value => exact ⟨rfl, rfl, hnew.send fun _ h => absurd rfl h⟩
  | slotsAdded slots => exact ⟨rfl, rfl, hnew.send fun _ h => absurd rfl h⟩
  | otherKind => exact ⟨rfl, rfl, hnew.send fun _ h => absurd rfl h⟩

theorem Inv.addConnection {cq : ConnectionQueue} (h : cq.Inv) (owner : Transport)
    (handlerContext : HandlerContext) (initialUpdate : PushUpdates) :
    (cq.addConnection owner handlerContext initialUpdate).Inv := by
  obtain ⟨new, hall, hid, hcloses, hscoped⟩ :=
    cq.addConnection_all owner handlerContext initialUpdate
  have hlength : (cq.addConnection owner handlerContext initialUpdate).all.length =
      cq.all.length + 1 := by simp [hall]
  refine ⟨?_, ?_, ?_, ?_, ?_⟩
  · rw [hlength, ← h.counted]
    rfl
  · rw [hlength, hall, List.map_append, h.ids, List.map_singleton, hid, h.counted,
      List.range'_concat]
    simp [Nat.add_comm]
  · intro id conn hconn
    rw [hlength]
    by_cases hnew : id = cq.nextConnID + 1
    · subst hnew
      have heq : some cq.all.length = some conn := (AList.lookup_insert _).symm.trans hconn
      obtain rfl := Option.some.inj heq
      exact ⟨by rw [h.counted], Nat.lt_succ_self _⟩
    · obtain ⟨hid, hlt⟩ := h.pointers id conn ((AList.lookup_insert_ne hnew).symm.trans hconn)
      exact ⟨hid, Nat.lt_succ_of_lt hlt⟩
  · intro conn hconn
    rw [hall] at hconn
    rcases List.mem_append.mp hconn with hold | hnew
    · exact h.closes conn hold
    · rw [List.mem_singleton.mp hnew, hcloses]
      exact Nat.zero_le 1
  · intro conn hconn
    rw [hall] at hconn
    rcases List.mem_append.mp hconn with hold | hnew
    · exact h.inScope conn hold
    · rw [List.mem_singleton.mp hnew]
      exact hscoped

end ConnectionQueue

open ConnectionQueue

/-- A call to `shutdown` or `shutdownOwner` that is under way or has returned. -/
structure ShutdownCall.Inv (cq : ConnectionQueue) (call : ShutdownCall) : Prop where
  pointers : ∀ w ∈ call.workers, w.connection < cq.all.length
  gone : ∀ w ∈ call.workers, w.phase = .finished → w.connection + 1 ∉ cq.connections
  returned : call.returned = true → ∀ w ∈ call.workers, w.phase = .finished
  shuttingDown : call.owner = none → cq.shuttingDown = true
  covered : call.owner = none → ∀ id conn, cq.connections.lookup id = some conn →
    ∃ w ∈ call.workers, w.connection = conn

namespace ShutdownCall

theorem Inv.shrinks {cq cq' : ConnectionQueue} {call : ShutdownCall} (h : call.Inv cq)
    (hcq : cq.Shrinks cq') : call.Inv cq' := by
  refine ⟨?_, ?_, h.returned, fun howner => hcq.shuttingDown (h.shuttingDown howner), ?_⟩
  · intro w hw
    exact Nat.lt_of_lt_of_le (h.pointers w hw) hcq.length
  · intro w hw hfinished hmem
    obtain ⟨conn, hconn⟩ := Option.isSome_iff_exists.mp (AList.lookup_isSome.mpr hmem)
    exact h.gone w hw hfinished (AList.lookup_isSome.mp (by rw [hcq.connections _ conn hconn]; rfl))
  · intro howner id conn hconn
    exact h.covered howner id conn (hcq.connections id conn hconn)

/-- A registration cannot happen during a shutdown, and it takes an id no goroutine has waited
for. -/
theorem Inv.addConnection {cq : ConnectionQueue} {call : ShutdownCall} (h : call.Inv cq)
    (hcq : cq.Inv) (hdown : cq.shuttingDown = false) (owner : Transport)
    (handlerContext : HandlerContext) (initialUpdate : PushUpdates) :
    call.Inv (cq.addConnection owner handlerContext initialUpdate) := by
  have hrunning : call.owner ≠ none := by
    intro howner
    cases hdown.symm.trans (h.shuttingDown howner)
  refine ⟨?_, ?_, h.returned, fun howner => absurd howner hrunning,
    fun howner => absurd howner hrunning⟩
  · intro w hw
    have hlength : (cq.addConnection owner handlerContext initialUpdate).all.length =
        cq.all.length + 1 := by simp [ConnectionQueue.addConnection]
    rw [hlength]
    exact Nat.lt_succ_of_lt (h.pointers w hw)
  · intro w hw hfinished hmem
    rcases (AList.mem_insert _).mp hmem with hnew | hold
    · have hlt := h.pointers w hw
      rw [hcq.counted] at hnew
      omega
    · exact h.gone w hw hfinished hold

/-- A goroutine moves on. -/
theorem Inv.setWorker {cq : ConnectionQueue} {call : ShutdownCall} (h : call.Inv cq) {j : Nat}
    {w w' : Worker} (hw : call.workers[j]? = some w) (hconn : w'.connection = w.connection)
    (hfinished : w.phase = .finished → w'.phase = .finished)
    (hgone : w'.phase = .finished → w'.connection + 1 ∉ cq.connections) :
    ({ call with workers := call.workers.set j w' } : ShutdownCall).Inv cq := by
  have hmem : w ∈ call.workers := List.mem_of_getElem? hw
  refine ⟨?_, ?_, ?_, h.shuttingDown, ?_⟩
  · intro v hv
    rcases List.mem_or_eq_of_mem_set hv with hold | rfl
    · exact h.pointers v hold
    · rw [hconn]
      exact h.pointers w hmem
  · intro v hv hphase
    rcases List.mem_or_eq_of_mem_set hv with hold | rfl
    · exact h.gone v hold hphase
    · exact hgone hphase
  · intro hreturned v hv
    rcases List.mem_or_eq_of_mem_set hv with hold | rfl
    · exact h.returned hreturned v hold
    · exact hfinished (h.returned hreturned w hmem)
  · intro howner id conn hlookup
    obtain ⟨v, hv, hvconn⟩ := h.covered howner id conn hlookup
    obtain ⟨i, hi⟩ := List.mem_iff_getElem?.mp hv
    by_cases hij : j = i
    · subst hij
      obtain rfl := Option.some.inj (hw.symm.trans hi)
      refine ⟨w', List.mem_of_getElem? (i := j) ?_, hconn.trans hvconn⟩
      exact List.getElem?_set_self (List.getElem?_eq_some_iff.mp hw).1
    · refine ⟨v, List.mem_of_getElem? (i := i) ?_, hvconn⟩
      exact (List.getElem?_set_ne hij).trans hi

theorem phase_wake (w : Worker) : w.wake.phase = .finished ↔ w.phase = .finished := by
  simp only [Worker.wake]
  split
  · rename_i hwaiting
    simp [hwaiting]
  · rfl

theorem connection_wake (w : Worker) : w.wake.connection = w.connection := by
  simp only [Worker.wake]
  split <;> rfl

theorem Inv.wake {cq : ConnectionQueue} {call : ShutdownCall} (h : call.Inv cq) :
    ({ call with workers := call.workers.map Worker.wake } : ShutdownCall).Inv cq := by
  refine ⟨?_, ?_, ?_, h.shuttingDown, ?_⟩
  · intro v hv
    obtain ⟨w, hw, rfl⟩ := List.mem_map.mp hv
    rw [connection_wake]
    exact h.pointers w hw
  · intro v hv hphase
    obtain ⟨w, hw, rfl⟩ := List.mem_map.mp hv
    rw [connection_wake]
    exact h.gone w hw ((phase_wake w).mp hphase)
  · intro hreturned v hv
    obtain ⟨w, hw, rfl⟩ := List.mem_map.mp hv
    exact (phase_wake w).mpr (h.returned hreturned w hw)
  · intro howner id conn hconn
    obtain ⟨w, hw, hwconn⟩ := h.covered howner id conn hconn
    exact ⟨w.wake, List.mem_map_of_mem hw, (connection_wake w).trans hwconn⟩

end ShutdownCall

namespace QueueState

structure Inv (s : QueueState) : Prop where
  queue : s.queue.Inv
  calls : ∀ call ∈ s.calls, call.Inv s.queue

theorem Inv.shrinks {s : QueueState} (h : s.Inv) {queue : ConnectionQueue} (hqueue : queue.Inv)
    (hshrinks : s.queue.Shrinks queue) : ({ s with queue } : QueueState).Inv :=
  ⟨hqueue, fun call hcall => (h.calls call hcall).shrinks hshrinks⟩

theorem Inv.remove {s : QueueState} (h : s.Inv) (connID : Nat) : (s.remove connID).Inv := by
  have hqueue := h.shrinks (h.queue.deregisterConnection connID)
    (s.queue.shrinks_deregisterConnection connID)
  refine ⟨hqueue.queue, ?_⟩
  intro call hcall
  obtain ⟨old, hold, rfl⟩ := List.mem_map.mp hcall
  exact (hqueue.calls old hold).wake

theorem Inv.setWorker {s : QueueState} (h : s.Inv) {i j : Nat} {w w' : Worker}
    (hw : s.worker i j = some w) (hconn : w'.connection = w.connection)
    (hfinished : w.phase = .finished → w'.phase = .finished)
    (hgone : w'.phase = .finished → w'.connection + 1 ∉ s.queue.connections) :
    (s.setWorker i j w').Inv := by
  obtain ⟨call, hcall, hj⟩ := Option.bind_eq_some_iff.mp hw
  refine ⟨h.queue, forall_mem_modify (fun call' hcall' hinv => ?_) h.calls⟩
  obtain rfl := Option.some.inj (hcall.symm.trans hcall')
  exact hinv.setWorker hj hconn hfinished hgone

theorem Inv.worker_lt {s : QueueState} (h : s.Inv) {i j : Nat} {w : Worker}
    (hw : s.worker i j = some w) : w.connection < s.queue.all.length := by
  obtain ⟨call, hcall, hj⟩ := Option.bind_eq_some_iff.mp hw
  exact (h.calls call (List.mem_of_getElem? hcall)).pointers w (List.mem_of_getElem? hj)

theorem Inv.worker_gone {s : QueueState} (h : s.Inv) {i j : Nat} {w : Worker}
    (hw : s.worker i j = some w) (hfinished : w.phase = .finished) :
    w.connection + 1 ∉ s.queue.connections := by
  obtain ⟨call, hcall, hj⟩ := Option.bind_eq_some_iff.mp hw
  exact (h.calls call (List.mem_of_getElem? hcall)).gone w (List.mem_of_getElem? hj) hfinished

theorem Inv.check {s : QueueState} (h : s.Inv) {i j : Nat} {w w' : Worker}
    (hw : s.worker i j = some w) (hconn : w'.connection = w.connection)
    (hphase : w.phase ≠ .finished) : (s.check i j w').Inv := by
  have hlt : w'.connection < s.queue.all.length := hconn ▸ h.worker_lt hw
  simp only [QueueState.check, h.queue.connID hlt]
  refine h.setWorker hw hconn (fun hfinished => absurd hfinished hphase) ?_
  intro hfinished hmem
  simp [hmem] at hfinished

theorem Inv.startShutdown {s : QueueState} (h : s.Inv) (owner : Option Transport) :
    (s.startShutdown owner).Inv := by
  have hshrinks : s.queue.Shrinks (s.startShutdown owner).queue := by
    simp only [QueueState.startShutdown]
    split
    · exact ⟨Nat.le_refl _, fun _ _ hconn => hconn, fun _ => rfl⟩
    · exact ⟨Nat.le_refl _, fun _ _ hconn => hconn, fun hdown => hdown⟩
  have hqueue : (s.startShutdown owner).queue.Inv := by
    simp only [QueueState.startShutdown]
    split
    · exact ⟨h.queue.counted, h.queue.ids, h.queue.pointers, h.queue.closes, h.queue.inScope⟩
    · exact h.queue
  refine ⟨hqueue, ?_⟩
  intro call hcall
  rcases List.mem_append.mp hcall with hold | hnew
  · exact (h.calls call hold).shrinks hshrinks
  · obtain rfl := List.mem_singleton.mp hnew
    have hworker : ∀ w ∈ (s.queue.snapshot owner).map (fun connection => ({ connection } : Worker)),
        w.connection ∈ s.queue.snapshot owner ∧ w.phase = .spawned := by
      intro w hw
      obtain ⟨conn, hconn, rfl⟩ := List.mem_map.mp hw
      exact ⟨hconn, rfl⟩
    refine ⟨?_, ?_, ?_, ?_, ?_⟩
    · intro w hw
      obtain ⟨e, he, hconn⟩ := List.mem_map.mp (List.mem_of_mem_filter (hworker w hw).1)
      have hlookup : s.queue.connections.lookup e.1 = some e.2 := AList.mem_lookup_iff.mpr he
      rw [← hconn]
      exact Nat.lt_of_lt_of_le (h.queue.pointers e.1 e.2 hlookup).2 hshrinks.length
    · intro w hw hfinished
      rw [(hworker w hw).2] at hfinished
      cases hfinished
    · intro hreturned
      cases hreturned
    · intro howner
      obtain rfl : owner = none := howner
      rfl
    · intro howner id conn hconn
      obtain rfl : owner = none := howner
      have hmem := AList.mem_lookup_iff.mp (hshrinks.connections id conn hconn)
      refine ⟨{ connection := conn }, List.mem_map_of_mem (List.mem_filter.mpr ⟨?_, rfl⟩), rfl⟩
      exact List.mem_map_of_mem (f := Sigma.snd) hmem

end QueueState

/-- Every event keeps the invariant. -/
theorem QueueEvent.exec_inv (e : QueueEvent) (s s' : QueueState) (h : s.Inv)
    (hexec : e.exec s = some s') : s'.Inv := by
  cases e with
  | register owner handlerContext initialUpdate =>
    simp only [exec] at hexec
    rcases s.queue.registerOwnedConnection_cases owner handlerContext initialUpdate with
      ⟨res, hres⟩ | ⟨hdown, _, hres⟩
    · rw [hres] at hexec
      obtain rfl := Option.some.inj hexec
      exact h
    · rw [hres] at hexec
      obtain rfl := Option.some.inj hexec
      refine ⟨h.queue.addConnection owner handlerContext initialUpdate, ?_⟩
      intro call hcall
      exact (h.calls call hcall).addConnection h.queue hdown owner handlerContext initialUpdate
  | deregister connID =>
    obtain rfl := Option.some.inj hexec
    simp only [QueueState.deregisterConnection]
    split
    · exact h.remove connID
    · exact h
  | setMaxConnections max =>
    obtain rfl := Option.some.inj hexec
    exact h.shrinks
      ⟨h.queue.counted, h.queue.ids, h.queue.pointers, h.queue.closes, h.queue.inScope⟩
      ⟨Nat.le_refl _, fun _ _ hconn => hconn, fun hdown => hdown⟩
  | notify update scope =>
    obtain rfl := Option.some.inj hexec
    exact h.shrinks (h.queue.notifyUpdate update scope)
      ⟨Nat.le_of_eq (length_modifyAll _ _ _).symm, fun _ _ hconn => hconn, fun hdown => hdown⟩
  | receive conn =>
    obtain rfl := Option.some.inj hexec
    exact h.shrinks (h.queue.modify conn (fun _ => rfl) (fun _ hconn => hconn) (fun _ hconn => hconn))
      ⟨Nat.le_of_eq (List.length_modify _ _ _).symm, fun _ _ hconn => hconn, fun hdown => hdown⟩
  | startShutdown owner =>
    obtain rfl := Option.some.inj hexec
    exact h.startShutdown owner
  | enter i j =>
    obtain ⟨w, hw, hspawned, rfl⟩ := exists_of_guarded hexec
    have hclosed := h.shrinks (h.queue.modify w.connection Connection.id_closeDone
      (fun _ => Connection.closes_closeDone) (fun _ => Connection.Scoped.closeDone))
      ⟨Nat.le_of_eq (List.length_modify _ _ _).symm, fun _ _ hconn => hconn, fun hdown => hdown⟩
    refine hclosed.check hw rfl ?_
    intro hfinished
    cases hspawned.symm.trans hfinished
  | recheck i j =>
    obtain ⟨w, hw, hwoken, rfl⟩ := exists_of_guarded hexec
    apply h.check hw rfl
    intro hfinished
    cases hwoken.symm.trans hfinished
  | expire i =>
    obtain rfl := Option.some.inj hexec
    refine ⟨h.queue, forall_mem_modify (fun call _ hcall => ?_) h.calls⟩
    exact ⟨hcall.pointers, hcall.gone, hcall.returned, hcall.shuttingDown, hcall.covered⟩
  | force i j =>
    obtain ⟨w, hw, _, rfl⟩ := exists_of_guarded hexec
    have hgone : w.phase = .finished → w.connection + 1 ∉ s.queue.connections := h.worker_gone hw
    have hset : (s.setWorker i j { w with watchdog := .exited }).Inv :=
      h.setWorker hw rfl (fun hfinished => hfinished) hgone
    simp only [QueueState.force]
    split
    · exact hset
    · exact hset.remove _
  | dismiss i j =>
    obtain ⟨w, hw, _, rfl⟩ := exists_of_guarded hexec
    have hgone : w.phase = .finished → w.connection + 1 ∉ s.queue.connections := h.worker_gone hw
    exact h.setWorker hw rfl (fun hfinished => hfinished) hgone
  | finish i =>
    simp only [exec] at hexec
    split at hexec
    · rename_i hall
      obtain rfl := Option.some.inj hexec
      refine ⟨h.queue, forall_mem_modify (fun call hi hcall => ?_) h.calls⟩
      refine ⟨hcall.pointers, hcall.gone, fun _ w hw => ?_, hcall.shuttingDown, hcall.covered⟩
      rw [hi] at hall
      simpa using List.all_eq_true.mp hall w hw
    · cases hexec

/-- What holds in every state of the queue. -/
structure QueueState.Safe (s : QueueState) : Prop where
  ids_distinct : (s.queue.all.map Connection.id).Nodup
  closed_once : ∀ conn ∈ s.queue.all, conn.closes ≤ 1
  in_scope : ∀ conn ∈ s.queue.all, conn.Scoped
  /-- A shutdown that has returned has left none of the connections of its snapshot. -/
  snapshot_gone : ∀ call ∈ s.calls, call.returned = true → ∀ w ∈ call.workers,
    ∀ id, s.queue.connections.lookup id ≠ some w.connection
  empty : ∀ call ∈ s.calls, call.returned = true → call.owner = none → s.queue.connections = ∅

/-- What every event does. -/
structure QueueState.SafeStep (s : QueueState) (e : QueueEvent) (s' : QueueState) : Prop where
  /-- A registration that succeeds finds the queue open, leaves it within its limit and takes an
  id that no connection has had. -/
  registered : ∀ owner handlerContext initialUpdate, e = .register owner handlerContext initialUpdate →
    s'.queue.all.length ≠ s.queue.all.length → s.queue.shuttingDown = false ∧
      (0 < s'.queue.maxConnections → s'.queue.connectionCount ≤ s'.queue.maxConnections) ∧
      s'.queue.nextConnID ∉ s.queue.all.map Connection.id
  shuttingDown : s.queue.shuttingDown = true → s'.queue.shuttingDown = true
  /-- A forced close removes no connection but the one it was started for. -/
  forced : ∀ i j w, e = .force i j → s.worker i j = some w → ∀ id conn,
    s.queue.connections.lookup id = some conn → conn ≠ w.connection →
      s'.queue.connections.lookup id = some conn
  returned : ∀ (i : Nat) (call : ShutdownCall), s.calls[i]? = some call → call.returned = true →
    ∃ call', s'.calls[i]? = some call' ∧ call'.returned = true ∧ call'.owner = call.owner

namespace QueueState

theorem Inv.safe {s : QueueState} (h : s.Inv) : s.Safe := by
  have hgone : ∀ call ∈ s.calls, call.returned = true → ∀ w ∈ call.workers,
      ∀ id, s.queue.connections.lookup id ≠ some w.connection := by
    intro call hcall hreturned w hw id hlookup
    have hcall := h.calls call hcall
    obtain ⟨rfl, _⟩ := h.queue.pointers id w.connection hlookup
    exact hcall.gone w hw (hcall.returned hreturned w hw)
      (AList.lookup_isSome.mp (by rw [hlookup]; rfl))
  refine ⟨?_, h.queue.closes, h.queue.inScope, hgone, ?_⟩
  · rw [h.queue.ids]
    exact List.nodup_range'
  · intro call hcall hreturned howner
    have hnone : ∀ e ∈ s.queue.connections.entries, False := by
      intro e he
      have hlookup : s.queue.connections.lookup e.1 = some e.2 := AList.mem_lookup_iff.mpr he
      obtain ⟨w, hw, hconn⟩ := (h.calls call hcall).covered howner e.1 e.2 hlookup
      exact hgone call hcall hreturned w hw e.1 (hconn ▸ hlookup)
    exact AList.ext (List.eq_nil_iff_forall_not_mem.mpr hnone)

/-- Every call is still there, and has returned if it had. -/
def Persists (calls calls' : List ShutdownCall) : Prop :=
  ∀ (i : Nat) (call : ShutdownCall), calls[i]? = some call → ∃ call', calls'[i]? = some call' ∧
    (call.returned = true → call'.returned = true) ∧ call'.owner = call.owner

theorem persists_refl (calls : List ShutdownCall) : Persists calls calls :=
  fun _ call hcall => ⟨call, hcall, fun h => h, rfl⟩

theorem Persists.trans {calls calls' calls'' : List ShutdownCall} (h : Persists calls calls')
    (h' : Persists calls' calls'') : Persists calls calls'' := by
  intro i call hcall
  obtain ⟨call₁, hcall₁, hreturned₁, howner₁⟩ := h i call hcall
  obtain ⟨call₂, hcall₂, hreturned₂, howner₂⟩ := h' i call₁ hcall₁
  exact ⟨call₂, hcall₂, fun hr => hreturned₂ (hreturned₁ hr), howner₂.trans howner₁⟩

theorem persists_modify (calls : List ShutdownCall) (i : Nat) {f : ShutdownCall → ShutdownCall}
    (hreturned : ∀ call, call.returned = true → (f call).returned = true)
    (howner : ∀ call, (f call).owner = call.owner) : Persists calls (calls.modify i f) := by
  intro j call hcall
  by_cases hij : i = j
  · subst hij
    refine ⟨f call, ?_, hreturned call, howner call⟩
    rw [List.getElem?_modify_eq, hcall]
    rfl
  · exact ⟨call, by rw [List.getElem?_modify_ne _ _ hij, hcall], fun h => h, rfl⟩

theorem persists_remove (s : QueueState) (connID : Nat) :
    Persists s.calls (s.remove connID).calls := by
  intro i call hcall
  refine ⟨{ call with workers := call.workers.map Worker.wake }, ?_, fun h => h, rfl⟩
  simp [remove, broadcast, hcall]

theorem persists_setWorker (s : QueueState) (i j : Nat) (w : Worker) :
    Persists s.calls (s.setWorker i j w).calls :=
  persists_modify s.calls i (fun _ h => h) (fun _ => rfl)

theorem persists_exec {s s' : QueueState} {e : QueueEvent} (hexec : e.exec s = some s') :
    Persists s.calls s'.calls := by
  cases e with
  | register owner handlerContext initialUpdate =>
    simp only [QueueEvent.exec] at hexec
    split at hexec <;> obtain rfl := Option.some.inj hexec <;> exact persists_refl _
  | deregister connID =>
    obtain rfl := Option.some.inj hexec
    simp only [deregisterConnection]
    split
    · exact persists_remove s connID
    · exact persists_refl _
  | setMaxConnections max | notify update scope | receive conn =>
    obtain rfl := Option.some.inj hexec
    exact persists_refl _
  | startShutdown owner =>
    obtain rfl := Option.some.inj hexec
    intro i call hcall
    have hlt := (List.getElem?_eq_some_iff.mp hcall).1
    exact ⟨call, (List.getElem?_append_left hlt).trans hcall, fun h => h, rfl⟩
  | enter i j | recheck i j | dismiss i j =>
    obtain ⟨w, _, _, rfl⟩ := exists_of_guarded hexec
    exact persists_setWorker _ i j _
  | expire i =>
    obtain rfl := Option.some.inj hexec
    exact persists_modify s.calls i (fun _ h => h) (fun _ => rfl)
  | force i j =>
    obtain ⟨w, _, _, rfl⟩ := exists_of_guarded hexec
    have hset := persists_setWorker s i j { w with watchdog := .exited }
    simp only [force]
    split
    · exact hset
    · exact hset.trans (persists_remove _ _)
  | finish i =>
    simp only [QueueEvent.exec] at hexec
    split at hexec
    · obtain rfl := Option.some.inj hexec
      exact persists_modify s.calls i (fun _ _ => rfl) (fun _ => rfl)
    · cases hexec

theorem shuttingDown_exec {s s' : QueueState} {e : QueueEvent} (hexec : e.exec s = some s')
    (h : s.queue.shuttingDown = true) : s'.queue.shuttingDown = true := by
  cases e with
  | register owner handlerContext initialUpdate =>
    simp only [QueueEvent.exec, ConnectionQueue.registerOwnedConnection, h, if_true] at hexec
    obtain rfl := Option.some.inj hexec
    exact h
  | deregister connID =>
    obtain rfl := Option.some.inj hexec
    simp only [deregisterConnection]
    split <;> exact h
  | setMaxConnections max | notify update scope | receive conn | expire i =>
    obtain rfl := Option.some.inj hexec
    exact h
  | startShutdown owner =>
    obtain rfl := Option.some.inj hexec
    simp only [startShutdown]
    split
    · rfl
    · exact h
  | enter i j | recheck i j | dismiss i j =>
    obtain ⟨w, _, _, rfl⟩ := exists_of_guarded hexec
    exact h
  | force i j =>
    obtain ⟨w, _, _, rfl⟩ := exists_of_guarded hexec
    simp only [force]
    split <;> exact h
  | finish i =>
    simp only [QueueEvent.exec] at hexec
    split at hexec
    · obtain rfl := Option.some.inj hexec
      exact h
    · cases hexec

theorem Inv.register {s s' : QueueState} (h : s.Inv) {owner : Transport}
    {handlerContext : HandlerContext} {initialUpdate : PushUpdates}
    (hexec : (QueueEvent.register owner handlerContext initialUpdate).exec s = some s')
    (hnew : s'.queue.all.length ≠ s.queue.all.length) :
    s.queue.shuttingDown = false ∧
      (0 < s'.queue.maxConnections → s'.queue.connectionCount ≤ s'.queue.maxConnections) ∧
      s'.queue.nextConnID ∉ s.queue.all.map Connection.id := by
  simp only [QueueEvent.exec] at hexec
  rcases s.queue.registerOwnedConnection_cases owner handlerContext initialUpdate with
    ⟨res, hres⟩ | ⟨hdown, hroom, hres⟩
  · rw [hres] at hexec
    obtain rfl := Option.some.inj hexec
    exact absurd rfl hnew
  · rw [hres] at hexec
    obtain rfl := Option.some.inj hexec
    have hfresh : s.queue.nextConnID + 1 ∉ s.queue.connections := by
      intro hmem
      obtain ⟨conn, hconn⟩ := Option.isSome_iff_exists.mp (AList.lookup_isSome.mpr hmem)
      have hpointer := h.queue.pointers _ conn hconn
      have hcounted := h.queue.counted
      omega
    refine ⟨hdown, fun hmax => ?_, ?_⟩
    · have hcount : (s.queue.addConnection owner handlerContext initialUpdate).connectionCount =
          s.queue.connectionCount + 1 := by
        simp only [ConnectionQueue.connectionCount, ConnectionQueue.addConnection]
        rw [AList.entries_insert_of_notMem hfresh, List.length_cons]
      have hlt := hroom hmax
      rw [hcount]
      push_cast
      exact hlt
    · intro hmem
      rw [h.queue.ids] at hmem
      have hrange := List.mem_range'_1.mp hmem
      have hcounted := h.queue.counted
      simp only [ConnectionQueue.addConnection] at hrange
      omega

theorem Inv.force {s s' : QueueState} (h : s.Inv) {i j : Nat} {w : Worker}
    (hexec : (QueueEvent.force i j).exec s = some s') (hw : s.worker i j = some w) {id conn : Nat}
    (hconn : s.queue.connections.lookup id = some conn) (hne : conn ≠ w.connection) :
    s'.queue.connections.lookup id = some conn := by
  obtain ⟨w', hw', _, rfl⟩ := exists_of_guarded hexec
  obtain rfl := Option.some.inj (hw.symm.trans hw')
  have hid : (s.setWorker i j { w with watchdog := .exited }).queue.connID w.connection =
    some (w.connection + 1) := h.queue.connID (h.worker_lt hw)
  simp only [QueueState.force, hid]
  refine (AList.lookup_erase_ne ?_).trans hconn
  rw [(h.queue.pointers id conn hconn).1]
  omega

theorem Inv.safeStep {s s' : QueueState} (h : s.Inv) {e : QueueEvent}
    (hexec : e.exec s = some s') : s.SafeStep e s' := by
  refine ⟨?_, shuttingDown_exec hexec, ?_, ?_⟩
  · rintro owner handlerContext initialUpdate rfl
    exact h.register hexec
  · rintro i j w rfl hw id conn hconn hne
    exact h.force hexec hw hconn hne
  · intro i call hcall hreturned
    obtain ⟨call', hcall', hkept, howner⟩ := persists_exec hexec i call hcall
    exact ⟨call', hcall', hkept hreturned, howner⟩

end QueueState

theorem newConnectionQueue_inv (maxConnections : Int) : (newConnectionQueue maxConnections).Inv := by
  refine ⟨⟨rfl, rfl, ?_, ?_, ?_⟩, ?_⟩
  · intro id conn hconn
    cases hconn
  · intro conn hconn
    cases hconn
  · intro conn hconn
    cases hconn
  · intro call hcall
    cases hcall

/-- Whatever happens to a queue, in whatever order, it is safe and stays so. -/
theorem connectionQueue_safe (maxConnections : Int) (events : List QueueEvent) (s : QueueState)
    (h : replay QueueEvent.exec events (newConnectionQueue maxConnections) = some s) :
    s.Safe ∧ ∀ e s', e.exec s = some s' → s.SafeStep e s' := by
  have hinv : s.Inv := replay_invariant QueueEvent.exec_inv (newConnectionQueue_inv _) h
  exact ⟨hinv.safe, fun e s' => hinv.safeStep⟩

/-- A queue of at most one connection is shut down, and the connection closed by force. -/
theorem connectionQueue_safe_forced :
    ∃ s, replay QueueEvent.exec [.register 7 ⟨false, []⟩ (.slotsAdded [1]), .startShutdown none,
      .enter 0 0, .expire 0, .force 0 0, .recheck 0 0, .finish 0] (newConnectionQueue 1) = some s ∧
      s.Safe ∧ s.queue.connections = ∅ := by
  refine ⟨_, rfl, ?_⟩
  have hsafe := (connectionQueue_safe 1 [.register 7 ⟨false, []⟩ (.slotsAdded [1]),
    .startShutdown none, .enter 0 0, .expire 0, .force 0 0, .recheck 0 0, .finish 0] _ rfl).1
  exact ⟨hsafe, hsafe.empty _ (List.mem_singleton.mpr rfl) rfl rfl⟩

end Catena.Go
