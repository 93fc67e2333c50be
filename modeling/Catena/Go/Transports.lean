import Catena.Framework.Modify
import Catena.Framework.Replay
import Catena.Framework.Slice
import Catena.Go.ConnectionQueue

/-!
# The lifecycle of transports

A transport is started and appended to `transports` under the mutex of the server. It is shut
down outside the mutex, either by the `DeregisterTransport` call that has taken it out of the
slice or by the loop of the `Shutdown` call that has taken the whole slice. What happens while
the mutex is held is one event, and so is each call to a transport.
-/

namespace Catena.Go

open Catena.Framework

/-- A `DeregisterTransport` call that has taken a transport out of the slice. -/
structure DeregisterCall where
  transport : Transport
  called : Bool := false
  returned : Bool := false

/-- The `Shutdown` call that has set the flag: the slice it walks and where it is. -/
structure StopCall where
  transports : Slice
  next : Nat := 0
  returned : Bool := false

/-- The part of `server` that knows transports, with the calls that are under way. The calls to
`Start`, with their success, and to `Shutdown` that transports have received are kept for the
statements only. -/
structure TransportState where
  shutdown : Bool := false
  memory : List (List Transport) := []
  transports : Slice := {}
  deregistering : List DeregisterCall := []
  stopping : Option StopCall := none
  starts : List (Transport × Bool) := []
  stops : List Transport := []

namespace TransportState

/-- `RegisterTransport`. `err` is what the transport's `Start` returns, and `spare` the spare
capacity the runtime chooses when the slice has to grow. A nil transport is refused. -/
def registerTransport (s : TransportState) (transport : Option Transport) (err : Bool)
    (spare : Nat) : TransportState :=
  match transport with
  | none => s
  | some transport =>
      if s.shutdown then s
      else
        let s := { s with starts := s.starts ++ [(transport, !err)] }
        if err then s
        else
          let appended := s.transports.append s.memory [transport] spare
          { s with memory := appended.1, transports := appended.2 }

/-- `DeregisterTransport` up to the release of the mutex. -/
def deregisterTransport (s : TransportState) (transport : Transport) : TransportState :=
  let idx := (s.transports.read s.memory).idxOf transport
  if idx < s.transports.len then
    let removed := s.transports.remove s.memory idx
    { s with
      memory := removed.1
      transports := removed.2
      deregistering := s.deregistering ++ [{ transport }] }
  else s

/-- `Shutdown` up to the release of the mutex. -/
def startShutdown (s : TransportState) : TransportState :=
  if s.shutdown then s
  else { s with shutdown := true, stopping := some { transports := s.transports }, transports := {} }

end TransportState

inductive TransportEvent where
  | registerTransport (transport : Option Transport) (err : Bool) (spare : Nat)
  | deregisterTransport (transport : Transport)
  | callShutdown (call : Nat)
  | returnDeregister (call : Nat)
  | startShutdown
  | stopNext
  | returnShutdown

namespace TransportEvent

/-- The state after an event, `none` if it cannot happen. The loop of `Shutdown` reads the array
as it is when it comes to an element. -/
def exec : TransportEvent → TransportState → Option TransportState
  | .registerTransport transport err spare, s => some (s.registerTransport transport err spare)
  | .deregisterTransport transport, s => some (s.deregisterTransport transport)
  | .callShutdown call, s =>
      s.deregistering[call]?.bind fun c =>
        if c.called then none
        else some { s with
          deregistering := s.deregistering.modify call fun c => { c with called := true }
          stops := s.stops ++ [c.transport] }
  | .returnDeregister call, s =>
      s.deregistering[call]?.bind fun c =>
        if c.called then
          some { s with
            deregistering := s.deregistering.modify call fun c => { c with returned := true } }
        else none
  | .startShutdown, s => some s.startShutdown
  | .stopNext, s =>
      s.stopping.bind fun stop =>
        ((stop.transports.read s.memory)[stop.next]?).map fun transport =>
          { s with
            stopping := some { stop with next := stop.next + 1 }
            stops := s.stops ++ [transport] }
  | .returnShutdown, s =>
      s.stopping.bind fun stop =>
        if stop.transports.len ≤ stop.next then
          some { s with stopping := some { stop with returned := true } }
        else none

end TransportEvent

namespace TransportState

/-- The transports whose `Start` has succeeded. -/
def started (s : TransportState) : List Transport := (s.starts.filter Prod.snd).map Prod.fst

/-- The transports that a `DeregisterTransport` call is about to shut down. -/
def taken (s : TransportState) : List Transport :=
  (s.deregistering.filter fun c => !c.called).map DeregisterCall.transport

/-- The transports that the loop of `Shutdown` has still to come to. -/
def remaining (s : TransportState) : List Transport :=
  match s.stopping with
  | none => []
  | some stop => (stop.transports.read s.memory).drop stop.next

/-- Every started transport has been shut down or is in exactly one place where it will be. -/
structure Inv (s : TransportState) : Prop where
  valid : s.transports.Valid s.memory
  stopping : s.shutdown = s.stopping.isSome
  stopped : s.shutdown = true → s.transports = {}
  stopValid : ∀ stop, s.stopping = some stop → stop.transports.Valid s.memory
  called : ∀ c ∈ s.deregistering, c.returned = true → c.called = true
  finished : ∀ stop, s.stopping = some stop → stop.returned = true → stop.transports.len ≤ stop.next
  balance : ∀ t, s.started.count t = s.stops.count t + (s.transports.read s.memory).count t +
    s.taken.count t + s.remaining.count t

theorem Inv.not_stopping {s : TransportState} (h : s.Inv) (hrunning : s.shutdown = false) :
    s.stopping = none := by
  have hstopping := h.stopping
  rw [hrunning] at hstopping
  exact Option.not_isSome_iff_eq_none.mp (by simp [← hstopping])

theorem remaining_of_not_stopping {s : TransportState} (h : s.stopping = none) :
    s.remaining = [] := by
  rw [remaining, h]

theorem Inv.registerTransport {s : TransportState} (h : s.Inv) (transport : Option Transport)
    (err : Bool) (spare : Nat) : (s.registerTransport transport err spare).Inv := by
  cases transport with
  | none => exact h
  | some transport =>
    simp only [TransportState.registerTransport]
    split
    · exact h
    · rename_i hrunning
      have hstopping := h.not_stopping (by simpa using hrunning)
      have hremaining := remaining_of_not_stopping hstopping
      cases err with
      | true =>
        refine ⟨h.valid, h.stopping, h.stopped, h.stopValid, h.called, h.finished, fun t => ?_⟩
        have hstarted : s.started =
            ((s.starts ++ [(transport, false)]).filter Prod.snd).map Prod.fst := by
          simp [started]
        have hbalance := h.balance t
        rw [hstarted] at hbalance
        exact hbalance
      | false =>
        refine ⟨h.valid.append _ _, h.stopping, fun hdown => absurd hdown hrunning, ?_, h.called, ?_,
          fun t => ?_⟩
        · intro stop hstop
          cases hstopping.symm.trans hstop
        · intro stop hstop
          cases hstopping.symm.trans hstop
        · have hbalance := h.balance t
          have hread := Slice.read_append h.valid [transport] spare
          have hstarted : ((s.starts ++ [(transport, true)]).filter Prod.snd).map Prod.fst =
              s.started ++ [transport] := by
            simp [started]
          simp only [Bool.not_false, Bool.false_eq_true, if_false] at *
          rw [started, hstarted, hread, remaining, hstopping]
          rw [hremaining] at hbalance
          simp only [List.count_append] at hbalance ⊢
          simp only [taken] at hbalance ⊢
          omega

theorem Inv.deregisterTransport {s : TransportState} (h : s.Inv) (transport : Transport) :
    (s.deregisterTransport transport).Inv := by
  simp only [TransportState.deregisterTransport]
  split
  · rename_i hfound
    have hrunning : s.shutdown = false := by
      by_contra hdown
      rw [h.stopped (by simpa using hdown)] at hfound
      cases hfound
    have hstopping := h.not_stopping hrunning
    have hremaining := remaining_of_not_stopping hstopping
    have hmem : transport ∈ s.transports.read s.memory := by
      rw [← List.idxOf_lt_length_iff, Slice.length_read h.valid]
      exact hfound
    have hread := (Slice.read_remove h.valid hfound).trans (List.eraseIdx_idxOf_eq_erase ..)
    refine ⟨h.valid.remove hfound, h.stopping, ?_, ?_, ?_, ?_, fun t => ?_⟩
    · intro hdown
      cases hrunning.symm.trans hdown
    · intro stop hstop
      cases hstopping.symm.trans hstop
    · intro c hc hreturned
      rcases List.mem_append.mp hc with hold | hnew
      · exact h.called c hold hreturned
      · obtain rfl := List.mem_singleton.mp hnew
        cases hreturned
    · intro stop hstop
      cases hstopping.symm.trans hstop
    · have hbalance := h.balance t
      have htaken : ((s.deregistering ++ [({ transport } : DeregisterCall)]).filter
          fun c => !c.called).map DeregisterCall.transport = s.taken ++ [transport] := by
        simp [taken]
      rw [hread, taken, htaken, remaining, hstopping]
      rw [hremaining] at hbalance
      simp only [started, List.count_append, List.count_nil] at hbalance ⊢
      by_cases hsame : t = transport
      · subst hsame
        have hpos := List.count_pos_iff.mpr hmem
        rw [List.count_erase_self, List.count_singleton_self]
        omega
      · rw [List.count_erase_of_ne hsame, List.count_singleton, if_neg (by simpa using Ne.symm hsame)]
        omega
  · exact h

theorem Inv.startShutdown {s : TransportState} (h : s.Inv) : s.startShutdown.Inv := by
  simp only [TransportState.startShutdown]
  split
  · exact h
  · rename_i hrunning
    have hstopping := h.not_stopping (by simpa using hrunning)
    refine ⟨Slice.valid_nil _, rfl, fun _ => rfl, ?_, h.called, ?_, fun t => ?_⟩
    · intro stop hstop
      obtain rfl := Option.some.inj hstop
      exact h.valid
    · intro stop hstop hreturned
      obtain rfl := Option.some.inj hstop
      cases hreturned
    · have hbalance := h.balance t
      rw [remaining_of_not_stopping hstopping] at hbalance
      simp only [started, taken, remaining, Slice.read_nil, List.count_nil, List.drop_zero] at hbalance ⊢
      omega

theorem count_taken_modify {calls : List DeregisterCall} {i : Nat} {c : DeregisterCall}
    (hc : calls[i]? = some c) (hcalled : c.called = false) (t : Transport) :
    ((calls.filter fun c => !c.called).map DeregisterCall.transport).count t =
      (((calls.modify i fun c => { c with called := true }).filter fun c => !c.called).map
        DeregisterCall.transport).count t + [c.transport].count t := by
  obtain ⟨hi, _⟩ := List.getElem?_eq_some_iff.mp hc
  obtain ⟨before, c', after, hcalls, hlength, hmodify⟩ :=
    List.exists_of_modify (fun c : DeregisterCall => { c with called := true }) hi
  obtain rfl : c' = c := by
    rw [hcalls, ← hlength] at hc
    simpa using hc
  rw [hmodify, hcalls]
  simp only [List.filter_append, List.map_append, List.count_append, List.filter_cons, hcalled,
    Bool.not_false, Bool.not_true, if_true, Bool.false_eq_true, if_false, List.map_cons,
    List.count_cons, List.count_nil]
  omega

/-- A call that returns is as much about to shut its transport down as before. -/
theorem taken_modify_returned (calls : List DeregisterCall) (i : Nat) :
    ((calls.modify i fun c => { c with returned := true }).filter fun c => !c.called).map
      DeregisterCall.transport = (calls.filter fun c => !c.called).map DeregisterCall.transport := by
  induction calls generalizing i with
  | nil => rw [List.modify_nil]
  | cons c calls ih =>
    cases i with
    | zero =>
      rw [List.modify_zero_cons, List.filter_cons, List.filter_cons]
      cases c.called <;> rfl
    | succ i =>
      rw [List.modify_succ_cons, List.filter_cons, List.filter_cons]
      cases c.called
      · exact congrArg (c.transport :: ·) (ih i)
      · exact ih i

end TransportState

theorem TransportEvent.exec_inv (e : TransportEvent) (s s' : TransportState) (h : s.Inv)
    (hexec : e.exec s = some s') : s'.Inv := by
  cases e with
  | registerTransport transport err spare =>
    obtain rfl := Option.some.inj hexec
    exact h.registerTransport transport err spare
  | deregisterTransport transport =>
    obtain rfl := Option.some.inj hexec
    exact h.deregisterTransport transport
  | callShutdown call =>
    obtain ⟨c, hc, hrest⟩ := Option.bind_eq_some_iff.mp hexec
    split at hrest
    · cases hrest
    · rename_i hcalled
      obtain rfl := Option.some.inj hrest
      refine ⟨h.valid, h.stopping, h.stopped, h.stopValid, ?_, h.finished, fun t => ?_⟩
      · exact forall_mem_modify (fun _ _ _ _ => rfl) h.called
      · have hbalance := h.balance t
        have htaken := TransportState.count_taken_modify hc (by simpa using hcalled) t
        simp only [TransportState.started, TransportState.taken, TransportState.remaining,
          List.count_append] at hbalance htaken ⊢
        omega
  | returnDeregister call =>
    obtain ⟨c, hc, hcalled, rfl⟩ := exists_of_guarded hexec
    refine ⟨h.valid, h.stopping, h.stopped, h.stopValid, ?_, h.finished, fun t => ?_⟩
    · refine forall_mem_modify (fun c' hc' _ _ => ?_) h.called
      obtain rfl := Option.some.inj (hc.symm.trans hc')
      exact hcalled
    · have hbalance := h.balance t
      rw [TransportState.taken] at hbalance ⊢
      rw [TransportState.taken_modify_returned]
      exact hbalance
  | startShutdown =>
    obtain rfl := Option.some.inj hexec
    exact h.startShutdown
  | stopNext =>
    obtain ⟨stop, hstop, hrest⟩ := Option.bind_eq_some_iff.mp hexec
    obtain ⟨transport, htransport, rfl⟩ := Option.map_eq_some_iff.mp hrest
    refine ⟨h.valid, ?_, h.stopped, ?_, h.called, ?_, fun t => ?_⟩
    · rw [h.stopping, hstop]
      rfl
    · intro stop' hstop'
      obtain rfl := Option.some.inj hstop'
      exact h.stopValid stop hstop
    · intro stop' hstop' hreturned
      obtain rfl := Option.some.inj hstop'
      exact Nat.le_succ_of_le (h.finished stop hstop hreturned)
    · have hbalance := h.balance t
      obtain ⟨hlt, hget⟩ := List.getElem?_eq_some_iff.mp htransport
      simp only [TransportState.started, TransportState.taken, TransportState.remaining, hstop,
        List.drop_eq_getElem_cons hlt, hget, List.count_append, List.count_cons,
        List.count_nil] at hbalance ⊢
      omega
  | returnShutdown =>
    obtain ⟨stop, hstop, hend, rfl⟩ := exists_of_guarded hexec
    refine ⟨h.valid, ?_, h.stopped, ?_, h.called, ?_, fun t => ?_⟩
    · rw [h.stopping, hstop]
      rfl
    · intro stop' hstop'
      obtain rfl := Option.some.inj hstop'
      exact h.stopValid stop hstop
    · intro stop' hstop' _
      obtain rfl := Option.some.inj hstop'
      exact hend
    · have hbalance := h.balance t
      simp only [TransportState.started, TransportState.taken, TransportState.remaining,
        hstop] at hbalance ⊢
      exact hbalance

/-- The flag is set, and these are the transports that have been started. -/
def TransportState.Closed (starts : List (Transport × Bool)) (s : TransportState) : Prop :=
  s.shutdown = true ∧ s.starts = starts

/-- Once the flag is set it stays set, and no transport is started. -/
theorem TransportEvent.exec_closed {starts : List (Transport × Bool)} (e : TransportEvent)
    (s s' : TransportState) (h : s.Closed starts) (hexec : e.exec s = some s') :
    s'.Closed starts := by
  have hdown := h.1
  cases e with
  | registerTransport transport err spare =>
    obtain rfl := Option.some.inj hexec
    cases transport with
    | none => exact h
    | some transport =>
      rw [TransportState.registerTransport, if_pos hdown]
      exact h
  | deregisterTransport transport =>
    obtain rfl := Option.some.inj hexec
    rw [TransportState.deregisterTransport]
    split
    · exact h
    · exact h
  | callShutdown call =>
    obtain ⟨c, _, hrest⟩ := Option.bind_eq_some_iff.mp hexec
    split at hrest
    · cases hrest
    · obtain rfl := Option.some.inj hrest
      exact h
  | returnDeregister call =>
    obtain ⟨c, _, _, rfl⟩ := exists_of_guarded hexec
    exact h
  | startShutdown =>
    obtain rfl := Option.some.inj hexec
    rw [TransportState.startShutdown, if_pos hdown]
    exact h
  | stopNext =>
    obtain ⟨stop, _, hrest⟩ := Option.bind_eq_some_iff.mp hexec
    obtain ⟨transport, _, rfl⟩ := Option.map_eq_some_iff.mp hrest
    exact h
  | returnShutdown =>
    obtain ⟨stop, _, _, rfl⟩ := exists_of_guarded hexec
    exact h

theorem TransportState.initial_inv : Inv {} := by
  refine ⟨Slice.valid_nil _, rfl, ?_, ?_, ?_, ?_, ?_⟩
  · intro hdown
    cases hdown
  · intro stop hstop
    cases hstop
  · intro c hc
    cases hc
  · intro stop hstop
    cases hstop
  · intro t
    rfl

theorem TransportState.Inv.taken_eq_nil {s : TransportState} (h : s.Inv)
    (hreturned : ∀ c ∈ s.deregistering, c.returned = true) : s.taken = [] := by
  rw [taken, List.map_eq_nil_iff, List.filter_eq_nil_iff]
  intro c hc
  simp [h.called c hc (hreturned c hc)]

theorem TransportState.Inv.remaining_eq_nil {s : TransportState} (h : s.Inv) {stop : StopCall}
    (hstop : s.stopping = some stop) (hreturned : stop.returned = true) : s.remaining = [] := by
  rw [remaining, hstop]
  apply List.drop_eq_nil_of_le
  rw [Slice.length_read (h.stopValid stop hstop)]
  exact h.finished stop hstop hreturned

/-- No transport is started once the server is shutting down, and when the shutdown and every
deregistration have returned each transport has been shut down as often as it was started. -/
theorem transports_stopped (events : List TransportEvent) (s : TransportState)
    (h : replay TransportEvent.exec events {} = some s) :
    (s.shutdown = true → ∀ later s', replay TransportEvent.exec later s = some s' →
      s'.starts = s.starts) ∧
    ∀ stop, s.stopping = some stop → stop.returned = true →
      (∀ c ∈ s.deregistering, c.returned = true) →
        ∀ transport, s.stops.count transport = s.started.count transport := by
  have hinv : s.Inv := replay_invariant TransportEvent.exec_inv TransportState.initial_inv h
  constructor
  · intro hdown later s' hlater
    have hclosed : s'.Closed s.starts :=
      replay_invariant TransportEvent.exec_closed ⟨hdown, rfl⟩ hlater
    exact hclosed.2
  · intro stop hstop hreturned hderegistered transport
    have hdown : s.shutdown = true := by
      rw [hinv.stopping, hstop]
      rfl
    have hbalance := hinv.balance transport
    rw [hinv.stopped hdown, Slice.read_nil, hinv.taken_eq_nil hderegistered,
      hinv.remaining_eq_nil hstop hreturned] at hbalance
    exact hbalance.symm

/-- A transport that is registered twice is deregistered once while the server shuts down. -/
theorem transports_stopped_twice :
    ∃ s, replay TransportEvent.exec [.registerTransport (some 7) false 1,
      .registerTransport (some 8) true 0, .registerTransport (some 7) false 0,
      .deregisterTransport 7, .startShutdown, .stopNext, .callShutdown 0, .returnShutdown,
      .returnDeregister 0] {} = some s ∧ s.stops.count 7 = 2 ∧ s.started.count 7 = 2 := by
  refine ⟨_, rfl, ?_, rfl⟩
  exact (transports_stopped [.registerTransport (some 7) false 1,
    .registerTransport (some 8) true 0, .registerTransport (some 7) false 0,
    .deregisterTransport 7, .startShutdown, .stopNext, .callShutdown 0, .returnShutdown,
    .returnDeregister 0] _ rfl).2 _ rfl rfl (fun c hc => by
      rw [List.mem_singleton.mp hc]) 7

end Catena.Go
