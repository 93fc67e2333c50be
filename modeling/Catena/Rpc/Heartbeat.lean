import Catena.Framework.Modify
import Catena.Framework.Replay

/-!
# The heartbeat thread

`start` and `stop` set a flag under a mutex. `start` replaces the thread object while it holds
the mutex, `stop` joins the thread after it has released it. What happens while the mutex is held
is one event, and so are the two uses that `stop` makes of the thread object afterwards and the
end of a join.
-/

namespace Catena.Rpc

open Catena.Framework

/-- A thread that `start` has created. -/
structure HeartbeatThread where
  alive : Bool := true
  joined : Bool := false

/-- Where a `stop` call is: it has released the mutex, it has seen a joinable thread, or it waits
in `join`. -/
inductive StopPhase where
  | unlocked
  | joinable
  | joining (thread : Nat)
  | returned
deriving DecidableEq

/-- A `stop` call that has begun. A slot makes it on the heartbeat thread itself. -/
structure StopCall where
  caller : Option Nat
  phase : StopPhase

/-- A `Heartbeat`, with the `stop` calls that have begun. A thread is named by its position among
those that have been created. `terminated` says that a thread object has been destroyed that
held an unjoined thread, which ends the process, and `lastIsStop` is kept for the statements
only. -/
structure Heartbeat where
  running_ : Bool := false
  threads : List HeartbeatThread := []
  thread_ : Option Nat := none
  stops : List StopCall := []
  terminated : Bool := false
  lastIsStop : Bool := false

namespace Heartbeat

/-- `thread_ && thread_->joinable()`. -/
def joinable (s : Heartbeat) : Bool :=
  match s.thread_.bind (s.threads[·]?) with
  | some t => !t.joined
  | none => false

/-- `Heartbeat::start`. -/
def start (s : Heartbeat) : Heartbeat :=
  if s.running_ then { s with lastIsStop := false }
  else
    { s with
      running_ := true
      threads := s.threads ++ [{}]
      thread_ := some s.threads.length
      terminated := s.joinable
      lastIsStop := false }

/-- `Heartbeat::stop` up to the release of the mutex. -/
def stop (s : Heartbeat) (caller : Option Nat) : Heartbeat :=
  { s with
    running_ := false
    stops := s.stops ++ [{ caller, phase := .unlocked }]
    lastIsStop := true }

def Alive (s : Heartbeat) (i : Nat) : Prop := ∃ t, s.threads[i]? = some t ∧ t.alive = true

def Unjoined (s : Heartbeat) (i : Nat) : Prop := ∃ t, s.threads[i]? = some t ∧ t.joined = false

/-- A `stop` call is made on this thread and has not returned. -/
def Busy (s : Heartbeat) (i : Nat) : Prop :=
  ∃ c ∈ s.stops, c.caller = some i ∧ c.phase ≠ .returned

instance (s : Heartbeat) (i : Nat) : Decidable (s.Busy i) :=
  inferInstanceAs (Decidable (∃ c ∈ s.stops, c.caller = some i ∧ c.phase ≠ .returned))

end Heartbeat

inductive HeartbeatEvent where
  | start
  | stop (caller : Option Nat)
  | check (call : Nat)
  | join (call : Nat)
  | joined (call : Nat)
  | threadEnds (thread : Nat)

namespace HeartbeatEvent

/-- What can happen while the process runs, `none` if it cannot. `join` throws when the thread is
joined already or is the calling thread. -/
def step : HeartbeatEvent → Heartbeat → Option Heartbeat
  | .start, s => some s.start
  | .stop none, s => some (s.stop none)
  | .stop (some caller), s => s.threads[caller]?.bind fun t =>
      if t.alive = true ∧ ¬s.Busy caller then some (s.stop (some caller)) else none
  | .check call, s =>
      match s.stops[call]? with
      | some ⟨caller, .unlocked⟩ =>
          let phase := if s.joinable then .joinable else .returned
          some { s with stops := s.stops.set call ⟨caller, phase⟩ }
      | _ => none
  | .join call, s =>
      match s.stops[call]?, s.thread_ with
      | some ⟨caller, .joinable⟩, some i =>
          let phase := if s.joinable = true ∧ caller ≠ some i then .joining i else .returned
          some { s with stops := s.stops.set call ⟨caller, phase⟩ }
      | _, _ => none
  | .joined call, s =>
      match s.stops[call]? with
      | some ⟨caller, .joining i⟩ => s.threads[i]?.bind fun t =>
          if t.alive = false then
            some { s with
              threads := s.threads.set i { t with joined := true }
              stops := s.stops.set call ⟨caller, .returned⟩ }
          else none
      | _ => none
  | .threadEnds i, s => s.threads[i]?.bind fun t =>
      if t.alive = true ∧ s.running_ = false ∧ ¬s.Busy i then
        some { s with threads := s.threads.set i { t with alive := false } }
      else none

/-- Nothing happens after the process has ended. -/
def exec (e : HeartbeatEvent) (s : Heartbeat) : Option Heartbeat :=
  if s.terminated then none else e.step s

end HeartbeatEvent

namespace Heartbeat

/-- Some `stop` call has not returned. -/
def Stopping (s : Heartbeat) : Prop := ∃ c ∈ s.stops, c.phase ≠ .returned

/-- At most one thread is running, no unjoined thread has been replaced, and none is running when
every call has returned and the last one was a `stop`. -/
structure Safe (s : Heartbeat) : Prop where
  unique : ∀ i j, s.Alive i → s.Alive j → i = j
  replaced : s.terminated = false
  stopped : ¬s.Stopping → s.lastIsStop = true → ∀ i, ¬s.Alive i

/-- A running thread is the one that `thread_` holds, and where the flag is cleared some call is
still going to join it. -/
structure Inv (s : Heartbeat) : Prop where
  caller : ∀ c ∈ s.stops, c.caller = none
  alive : ∀ i, s.Alive i → s.thread_ = some i ∧ s.Unjoined i
  pending : s.running_ = false → ∀ i, s.thread_ = some i → s.Unjoined i →
    ∃ c ∈ s.stops, c.phase = .unlocked ∨ c.phase = .joinable ∨ c.phase = .joining i
  last : s.lastIsStop = true → s.running_ = false
  replaced : s.terminated = false

end Heartbeat

/-- No slot calls `stop`, and where `start` finds the flag cleared while a `stop` call is in
progress, the thread is joined already. -/
def HeartbeatEvent.Ordered : HeartbeatEvent → Heartbeat → Prop
  | .start, s => s.running_ = false → s.Stopping → s.joinable = false
  | .stop caller, _ => caller = none
  | _, _ => True

namespace Heartbeat

theorem joinable_eq_false_iff (s : Heartbeat) :
    s.joinable = false ↔ ∀ i, s.thread_ = some i → ¬s.Unjoined i := by
  simp only [joinable, Unjoined]
  cases s.thread_ with
  | none => simp
  | some i =>
    cases ht : s.threads[i]? with
    | none => simp [ht]
    | some t => simp [ht]

theorem Inv.safe {s : Heartbeat} (h : s.Inv) : s.Safe := by
  refine ⟨fun i j hi hj => ?_, h.replaced, fun hquiet hlast i hi => ?_⟩
  · exact Option.some.inj ((h.alive i hi).1.symm.trans (h.alive j hj).1)
  · obtain ⟨hthread, hunjoined⟩ := h.alive i hi
    obtain ⟨c, hc, hphase⟩ := h.pending (h.last hlast) i hthread hunjoined
    refine hquiet ⟨c, hc, fun hreturned => ?_⟩
    rw [hreturned] at hphase
    simp at hphase

theorem Inv.start {s : Heartbeat} (h : s.Inv) (hordered : HeartbeatEvent.start.Ordered s) :
    s.start.Inv := by
  simp only [Heartbeat.start]
  split
  · exact ⟨h.caller, h.alive, h.pending, fun hlast => (by cases hlast), h.replaced⟩
  · rename_i hrunning
    have hstopped : s.running_ = false := by simpa using hrunning
    have hjoined : s.joinable = false := by
      by_cases hstopping : s.Stopping
      · exact hordered hstopped hstopping
      · rw [joinable_eq_false_iff]
        intro i hthread hunjoined
        obtain ⟨c, hc, hphase⟩ := h.pending hstopped i hthread hunjoined
        refine hstopping ⟨c, hc, fun hreturned => ?_⟩
        rw [hreturned] at hphase
        simp at hphase
    refine ⟨h.caller, fun i hi => ?_, fun hrun => (by cases hrun), fun hlast => (by cases hlast),
      hjoined⟩
    obtain ⟨t, ht, halive⟩ := hi
    rcases getElem?_concat_cases ht with hold | ⟨rfl, rfl⟩
    · obtain ⟨hthread, hunjoined⟩ := h.alive i ⟨t, hold, halive⟩
      exact absurd hunjoined ((joinable_eq_false_iff s).mp hjoined i hthread)
    · exact ⟨rfl, {}, ht, rfl⟩

theorem Inv.stop {s : Heartbeat} (h : s.Inv) : (s.stop none).Inv := by
  refine ⟨fun c hc => ?_, h.alive, fun _ i _ _ => ?_, fun _ => rfl, h.replaced⟩
  · rcases List.mem_append.mp hc with hc | hc
    · exact h.caller c hc
    · obtain rfl := List.mem_singleton.mp hc
      rfl
  · exact ⟨_, List.mem_append_right _ (List.mem_singleton_self _), Or.inl rfl⟩

theorem Inv.caller_set {s : Heartbeat} {call : Nat} {caller : Option Nat} {p p' : StopPhase}
    (h : s.Inv) (hcall : s.stops[call]? = some ⟨caller, p⟩) :
    ∀ c ∈ s.stops.set call ⟨caller, p'⟩, c.caller = none := by
  intro c hc
  rcases List.mem_or_eq_of_mem_set hc with hc | rfl
  · exact h.caller c hc
  · exact h.caller ⟨caller, p⟩ (List.mem_of_getElem? hcall)

theorem Inv.set {s : Heartbeat} {call : Nat} {caller : Option Nat} {p p' : StopPhase} (h : s.Inv)
    (hcall : s.stops[call]? = some ⟨caller, p⟩)
    (hp : ∀ i, s.thread_ = some i → s.Unjoined i →
      p' = .unlocked ∨ p' = .joinable ∨ p' = .joining i) :
    Inv { s with stops := s.stops.set call ⟨caller, p'⟩ } := by
  refine ⟨h.caller_set hcall, h.alive, fun _ i hthread hunjoined => ?_, h.last, h.replaced⟩
  exact ⟨_, mem_set_of_getElem? _ hcall, hp i hthread hunjoined⟩

theorem Inv.alive_set {s : Heartbeat} {i j : Nat} {t : HeartbeatThread} (h : s.Inv)
    (hended : t.alive = false) {t' : HeartbeatThread} (ht' : (s.threads.set i t)[j]? = some t')
    (halive : t'.alive = true) :
    s.thread_ = some j ∧ ∃ t'', (s.threads.set i t)[j]? = some t'' ∧ t''.joined = false := by
  rcases getElem?_set_cases ht' with ⟨rfl, rfl⟩ | ⟨hne, hold⟩
  · cases hended.symm.trans halive
  · obtain ⟨hthread, t'', ht'', hunjoined⟩ := h.alive j ⟨t', hold, halive⟩
    exact ⟨hthread, t'', (List.getElem?_set_ne hne).trans ht'', hunjoined⟩

theorem Inv.joined {s : Heartbeat} {call i : Nat} {caller : Option Nat} {t : HeartbeatThread}
    (h : s.Inv) (hcall : s.stops[call]? = some ⟨caller, .joining i⟩) (hended : t.alive = false) :
    Inv { s with
      threads := s.threads.set i { t with joined := true }
      stops := s.stops.set call ⟨caller, .returned⟩ } := by
  refine ⟨h.caller_set hcall, fun j ⟨t', ht', halive⟩ => h.alive_set hended ht' halive, ?_, h.last,
    h.replaced⟩
  rintro hstopped j hthread ⟨t', ht', hjoined⟩
  rcases getElem?_set_cases ht' with ⟨rfl, rfl⟩ | ⟨hne, hold⟩
  · cases hjoined
  · have hpending := h.pending hstopped j hthread ⟨t', hold, hjoined⟩
    exact exists_mem_set _ hcall (by simpa using hne) hpending

theorem Inv.threadEnds {s : Heartbeat} {i : Nat} {t : HeartbeatThread} (h : s.Inv)
    (ht : s.threads[i]? = some t) :
    Inv { s with threads := s.threads.set i { t with alive := false } } := by
  refine ⟨h.caller, fun j ⟨t', ht', halive⟩ => h.alive_set rfl ht' halive, ?_, h.last, h.replaced⟩
  rintro hstopped j hthread ⟨t', ht', hjoined⟩
  refine h.pending hstopped j hthread ?_
  rcases getElem?_set_cases ht' with ⟨rfl, rfl⟩ | ⟨hne, hold⟩
  · exact ⟨t, ht, hjoined⟩
  · exact ⟨t', hold, hjoined⟩

end Heartbeat

namespace HeartbeatEvent

open Heartbeat

theorem exec_running {e : HeartbeatEvent} {s s' : Heartbeat} (hexec : e.exec s = some s') :
    e.step s = some s' := by
  simp only [exec] at hexec
  split at hexec
  · cases hexec
  · exact hexec

theorem exec_inv (e : HeartbeatEvent) (s s' : Heartbeat) (h : s.Inv) (hordered : e.Ordered s)
    (hexec : e.exec s = some s') : s'.Inv := by
  have hstep := exec_running hexec
  cases e with
  | start =>
    obtain rfl := Option.some.inj hstep
    exact h.start hordered
  | stop caller =>
    obtain rfl : caller = none := hordered
    obtain rfl := Option.some.inj hstep
    exact h.stop
  | check call =>
    simp only [step] at hstep
    split at hstep
    · rename_i caller hcall
      obtain rfl := Option.some.inj hstep
      refine h.set hcall fun i hthread hunjoined => ?_
      cases hjoinable : s.joinable with
      | true => simp
      | false => exact absurd hunjoined ((joinable_eq_false_iff s).mp hjoinable i hthread)
    · cases hstep
  | join call =>
    simp only [step] at hstep
    split at hstep
    · rename_i caller i hcall hthread
      obtain rfl := Option.some.inj hstep
      obtain rfl : caller = none := h.caller ⟨caller, .joinable⟩ (List.mem_of_getElem? hcall)
      refine h.set hcall fun j hthread' hunjoined => ?_
      obtain rfl := Option.some.inj (hthread.symm.trans hthread')
      cases hjoinable : s.joinable with
      | true => simp
      | false => exact absurd hunjoined ((joinable_eq_false_iff s).mp hjoinable i hthread)
    · cases hstep
  | joined call =>
    simp only [step] at hstep
    split at hstep
    · rename_i caller i hcall
      obtain ⟨t, ht, hended, rfl⟩ := exists_of_guarded hstep
      exact h.joined hcall hended
    · cases hstep
  | threadEnds i =>
    obtain ⟨t, ht, _, rfl⟩ := exists_of_guarded hstep
    exact h.threadEnds ht

end HeartbeatEvent

theorem Heartbeat.initial_inv : Inv {} := by
  refine ⟨fun c hc => ?_, fun i hi => ?_, fun _ i hthread => ?_, fun _ => rfl, rfl⟩
  · cases hc
  · obtain ⟨t, ht, _⟩ := hi
    cases ht
  · cases hthread

open HeartbeatEvent

/-- In every run where no slot calls `stop` and no `start` comes between the release of the mutex
by a `stop` and the join of the thread, the heartbeat is safe in every state. -/
theorem heartbeat_safe {events : List HeartbeatEvent} {s : Heartbeat}
    (hordered : AllSteps exec Ordered events {}) (hrun : replay exec events {} = some s) :
    s.Safe :=
  (replay_invariant_of exec_inv Heartbeat.initial_inv hordered hrun).safe

theorem heartbeat_safe_stopped :
    Heartbeat.Safe ⟨false, [⟨false, true⟩], some 0, [⟨none, .returned⟩], false, true⟩ := by
  refine heartbeat_safe ?_ (show replay exec
    [.start, .stop none, .check 0, .join 0, .threadEnds 0, .joined 0] {} = some _ from rfl)
  refine .cons ?_ rfl (.cons rfl rfl (.cons trivial rfl (.cons trivial rfl (.cons trivial rfl
    (.cons trivial rfl trivial)))))
  exact fun _ _ => rfl

/-- A `start` between the release of the mutex by a `stop` and its join replaces the thread
object while its thread is running, and a second thread is running. A slot that calls `stop`
cannot join its own thread: the call is over while the thread is running. -/
theorem thread_replaced_unjoined :
    (∃ s, replay exec [.start, .stop none, .start] {} = some s ∧ s.terminated = true ∧
      s.Alive 0 ∧ s.Alive 1) ∧
    (∃ s, replay exec [.start, .stop (some 0), .check 0, .join 0] {} = some s ∧ ¬s.Stopping ∧
      s.lastIsStop = true ∧ s.Alive 0) := by
  refine ⟨⟨_, rfl, rfl, ⟨_, rfl, rfl⟩, ⟨_, rfl, rfl⟩⟩, ⟨_, rfl, ?_, rfl, ⟨_, rfl, rfl⟩⟩⟩
  rintro ⟨c, hc, hphase⟩
  obtain rfl := List.mem_singleton.mp hc
  exact hphase rfl

end Catena.Rpc
