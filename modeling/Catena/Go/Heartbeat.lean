import Catena.Framework.Modify
import Catena.Framework.Replay

/-!
# The heartbeat of the server

`StartHeartbeat` and `StopHeartbeat` take the old heartbeat out of the server under its mutex
and stop it after they have released the mutex. `StartHeartbeat` then takes the mutex again to
store and start the new one. What happens while a mutex is held is one event, and so is the end
of a wait.
-/

namespace Catena.Go

open Catena.Framework

/-- A `Heartbeat`. Its stop channel is open as long as it is running. -/
structure Heartbeat where
  running : Bool := false
  wg : Nat := 0

/-- `Heartbeat.Start`, with whether it fails. -/
def Heartbeat.start (h : Heartbeat) (interval : Int) : Heartbeat × Bool :=
  if h.running then (h, false)
  else if interval ≤ 0 then (h, true)
  else ({ running := true, wg := h.wg + 1 }, false)

/-- Where a call is: it has taken a heartbeat out and not called its `Stop` yet, it waits in
`Stop` for the goroutine, or it is a `StartHeartbeat` that has to store its new heartbeat. -/
inductive HeartbeatPhase where
  | taken (hb : Nat)
  | waiting (hb : Nat)
  | stopped
  | returned
deriving DecidableEq

/-- A call that has begun. `StartHeartbeat` has an interval, `StopHeartbeat` has none. -/
structure HeartbeatCall where
  interval : Option Int
  phase : HeartbeatPhase

/-- What is left of a call once the old heartbeat is stopped. -/
def HeartbeatCall.afterStop : Option Int → HeartbeatPhase
  | some _ => .stopped
  | none => .returned

/-- The part of `server` that knows heartbeats. A heartbeat is named by its position among those
that have been stored, and a call by its position among those that have begun. -/
structure HeartbeatState where
  heartbeats : List Heartbeat := []
  heartbeat : Option Nat := none
  calls : List HeartbeatCall := []

/-- The first section of both calls: take the heartbeat out. -/
def HeartbeatState.take (s : HeartbeatState) (interval : Option Int) : HeartbeatState :=
  let phase := match s.heartbeat with
    | some old => .taken old
    | none => HeartbeatCall.afterStop interval
  { s with heartbeat := none, calls := s.calls ++ [{ interval, phase }] }

inductive HeartbeatEvent where
  | startHeartbeat (interval : Int)
  | stopHeartbeat
  | stop (call : Nat)
  | exit (hb : Nat)
  | wait (call : Nat)
  | store (call : Nat)

namespace HeartbeatEvent

/-- The state after an event, `none` if it cannot happen. `stop` is the section of
`Heartbeat.Stop`, `exit` the end of a goroutine whose stop channel is closed and `wait` the
return of `wg.Wait`. -/
def exec : HeartbeatEvent → HeartbeatState → Option HeartbeatState
  | .startHeartbeat interval, s => some (if interval ≤ 0 then s else s.take (some interval))
  | .stopHeartbeat, s => some (s.take none)
  | .stop call, s =>
      match s.calls[call]? with
      | some ⟨interval, .taken hb⟩ => s.heartbeats[hb]?.map fun h =>
          if h.running then
            { s with
              heartbeats := s.heartbeats.set hb { h with running := false }
              calls := s.calls.set call ⟨interval, .waiting hb⟩ }
          else { s with calls := s.calls.set call ⟨interval, HeartbeatCall.afterStop interval⟩ }
      | _ => none
  | .exit hb, s => s.heartbeats[hb]?.bind fun h =>
      if h.running = false ∧ 0 < h.wg then
        some { s with heartbeats := s.heartbeats.set hb { h with wg := h.wg - 1 } }
      else none
  | .wait call, s =>
      match s.calls[call]? with
      | some ⟨interval, .waiting hb⟩ => s.heartbeats[hb]?.bind fun h =>
          if h.wg = 0 then
            some { s with
              calls := s.calls.set call ⟨interval, HeartbeatCall.afterStop interval⟩ }
          else none
      | _ => none
  | .store call, s =>
      match s.calls[call]? with
      | some ⟨some interval, .stopped⟩ =>
          some { s with
            heartbeats := s.heartbeats ++ [(Heartbeat.start {} interval).1]
            heartbeat := some s.heartbeats.length
            calls := s.calls.set call ⟨some interval, .returned⟩ }
      | _ => none

/-- A `StartHeartbeat` stores its heartbeat only where no other one is stored. -/
def StoresAlone : HeartbeatEvent → HeartbeatState → Prop
  | .store _, s => s.heartbeat = none
  | _, _ => True

/-- What `Heartbeat.Stop` does under its mutex. -/
theorem exec_stop {call : Nat} {s s' : HeartbeatState} (hexec : exec (.stop call) s = some s') :
    ∃ interval hb h, s.calls[call]? = some ⟨interval, .taken hb⟩ ∧ s.heartbeats[hb]? = some h ∧
      (h.running = true ∧ s' = { s with
          heartbeats := s.heartbeats.set hb { h with running := false }
          calls := s.calls.set call ⟨interval, .waiting hb⟩ } ∨
        h.running = false ∧ s' = { s with
          calls := s.calls.set call ⟨interval, HeartbeatCall.afterStop interval⟩ }) := by
  simp only [exec] at hexec
  split at hexec
  · rename_i interval hb hcall
    obtain ⟨h, hh, rfl⟩ := Option.map_eq_some_iff.mp hexec
    refine ⟨interval, hb, h, hcall, hh, ?_⟩
    split
    · rename_i hrunning
      exact Or.inl ⟨hrunning, rfl⟩
    · rename_i hrunning
      exact Or.inr ⟨by simpa using hrunning, rfl⟩
  · cases hexec

theorem exec_wait {call : Nat} {s s' : HeartbeatState} (hexec : exec (.wait call) s = some s') :
    ∃ interval hb h, s.calls[call]? = some ⟨interval, .waiting hb⟩ ∧
      s.heartbeats[hb]? = some h ∧ h.wg = 0 ∧ s' = { s with
        calls := s.calls.set call ⟨interval, HeartbeatCall.afterStop interval⟩ } := by
  simp only [exec] at hexec
  split at hexec
  · rename_i interval hb hcall
    obtain ⟨h, hh, hwg, rfl⟩ := exists_of_guarded hexec
    exact ⟨interval, hb, h, hcall, hh, hwg, rfl⟩
  · cases hexec

theorem exec_store {call : Nat} {s s' : HeartbeatState} (hexec : exec (.store call) s = some s') :
    ∃ interval, s.calls[call]? = some ⟨some interval, .stopped⟩ ∧ s' = { s with
      heartbeats := s.heartbeats ++ [(Heartbeat.start {} interval).1]
      heartbeat := some s.heartbeats.length
      calls := s.calls.set call ⟨some interval, .returned⟩ } := by
  simp only [exec] at hexec
  split at hexec
  · rename_i interval hcall
    exact ⟨interval, hcall, (Option.some.inj hexec).symm⟩
  · cases hexec

end HeartbeatEvent

namespace HeartbeatState

def Running (s : HeartbeatState) (hb : Nat) : Prop :=
  ∃ h, s.heartbeats[hb]? = some h ∧ h.running = true

/-- The heartbeat is running or its goroutine has not ended. -/
def Live (s : HeartbeatState) (hb : Nat) : Prop :=
  ∃ h, s.heartbeats[hb]? = some h ∧ (h.running = true ∨ 0 < h.wg)

def At (s : HeartbeatState) (phase : HeartbeatPhase) : Prop := ∃ c ∈ s.calls, c.phase = phase

def Quiescent (s : HeartbeatState) : Prop := ∀ c ∈ s.calls, c.phase = .returned

instance (s : HeartbeatState) : Decidable s.Quiescent :=
  inferInstanceAs (Decidable (∀ c ∈ s.calls, c.phase = .returned))

theorem Quiescent.not_at {s : HeartbeatState} (h : s.Quiescent) {phase : HeartbeatPhase}
    (hphase : phase ≠ .returned) : ¬s.At phase := by
  rintro ⟨c, hc, rfl⟩
  exact hphase (h c hc)

/-- What holds in every state. A stored heartbeat is running, and no call has taken it out. -/
structure Inv (s : HeartbeatState) : Prop where
  stored : ∀ i, s.heartbeat = some i → s.Running i ∧ ¬s.At (.taken i)
  ended : ∀ i, s.Live i → s.Running i ∨ s.At (.waiting i)
  taken : ∀ i, s.At (.taken i) → i < s.heartbeats.length
  interval : ∀ c ∈ s.calls, ∀ interval, c.interval = some interval → 0 < interval

/-- Every running heartbeat is stored, or some call has taken it out to stop it. -/
def Owned (s : HeartbeatState) : Prop := ∀ i, s.Running i → s.heartbeat = some i ∨ s.At (.taken i)

/-- Some running heartbeat is not stored, and no call has taken it out. -/
def Lost (s : HeartbeatState) : Prop :=
  ∃ i, s.Running i ∧ s.heartbeat ≠ some i ∧ ¬s.At (.taken i)

theorem Running.lt {s : HeartbeatState} {i : Nat} (h : s.Running i) : i < s.heartbeats.length := by
  obtain ⟨_, hi, _⟩ := h
  exact (List.getElem?_eq_some_iff.mp hi).1

theorem afterStop_ne_taken (interval : Option Int) (i : Nat) :
    HeartbeatCall.afterStop interval ≠ .taken i := by
  cases interval <;> simp [HeartbeatCall.afterStop]

theorem at_taken_take (s : HeartbeatState) (interval : Option Int) (i : Nat) :
    (s.take interval).At (.taken i) ↔ s.At (.taken i) ∨ s.heartbeat = some i := by
  simp only [take, At, List.mem_append, List.mem_singleton, or_and_right, exists_or]
  refine or_congr Iff.rfl ?_
  cases hold : s.heartbeat with
  | none => simpa [hold] using afterStop_ne_taken interval i
  | some old => simp

theorem At.take {s : HeartbeatState} {phase : HeartbeatPhase} (h : s.At phase)
    (interval : Option Int) : (s.take interval).At phase := by
  obtain ⟨c, hc, hphase⟩ := h
  exact ⟨c, List.mem_append_left _ hc, hphase⟩

theorem Inv.take {s : HeartbeatState} (h : s.Inv) {interval : Option Int}
    (hpos : ∀ t, interval = some t → 0 < t) : (s.take interval).Inv := by
  refine ⟨?_, ?_, ?_, ?_⟩
  · intro i hi
    cases hi
  · intro i hi
    exact (h.ended i hi).imp id fun hat => hat.take interval
  · intro i hi
    rcases (at_taken_take s interval i).mp hi with hi | hi
    · exact h.taken i hi
    · exact (h.stored i hi).1.lt
  · intro c hc
    rcases List.mem_append.mp hc with hc | hc
    · exact h.interval c hc
    · obtain rfl := List.mem_singleton.mp hc
      exact hpos

theorem Owned.take {s : HeartbeatState} (h : s.Owned) (interval : Option Int) :
    (s.take interval).Owned := by
  intro i hi
  exact Or.inr ((at_taken_take s interval i).mpr (h i hi).symm)

theorem Lost.take {s : HeartbeatState} (h : s.Lost) (interval : Option Int) :
    (s.take interval).Lost := by
  obtain ⟨i, hrunning, hstored, htaken⟩ := h
  refine ⟨i, hrunning, by simp [HeartbeatState.take], fun hat => ?_⟩
  exact ((at_taken_take s interval i).mp hat).elim htaken hstored

end HeartbeatState

namespace HeartbeatEvent

open HeartbeatState

section Calls

variable {s : HeartbeatState} {call : Nat} {c c' : HeartbeatCall} {phase : HeartbeatPhase}

/-- A call that goes on leaves the calls in other phases where they are. -/
theorem at_set (hcall : s.calls[call]? = some c) (hne : c.phase ≠ phase) (h : s.At phase) :
    ∃ x ∈ s.calls.set call c', x.phase = phase :=
  exists_mem_set c' hcall hne h

theorem interval_set {interval : Option Int} {p p' : HeartbeatPhase} (hs : s.Inv)
    (hcall : s.calls[call]? = some ⟨interval, p⟩) :
    ∀ x ∈ s.calls.set call ⟨interval, p'⟩, ∀ t, x.interval = some t → 0 < t := by
  intro x hx
  rcases List.mem_or_eq_of_mem_set hx with hx | rfl
  · exact hs.interval x hx
  · exact fun t ht => hs.interval _ (List.mem_of_getElem? hcall) t ht

end Calls

/-- A call whose `Stop` returns: the goroutine it has waited for is gone. -/
theorem Inv.afterStop {s : HeartbeatState} {call : Nat} {interval : Option Int}
    {p : HeartbeatPhase} (hs : s.Inv) (hcall : s.calls[call]? = some ⟨interval, p⟩)
    (hp : ∀ i, p = .waiting i → s.Live i → s.Running i) :
    Inv { s with calls := s.calls.set call ⟨interval, HeartbeatCall.afterStop interval⟩ } := by
  refine ⟨fun i hi => ⟨(hs.stored i hi).1, fun hat => ?_⟩, fun i hi => ?_, fun i hi => ?_,
    interval_set hs hcall⟩
  · exact (hs.stored i hi).2 (of_exists_mem_set (afterStop_ne_taken interval i) hat)
  · by_cases hwait : p = .waiting i
    · exact Or.inl (hp i hwait hi)
    · exact (hs.ended i hi).imp id (at_set hcall hwait)
  · exact hs.taken i (of_exists_mem_set (afterStop_ne_taken interval i) hi)

/-- `Stop` of a running heartbeat up to the release of its mutex. -/
theorem Inv.stop {s : HeartbeatState} {call hb : Nat} {interval : Option Int} {h : Heartbeat}
    (hs : s.Inv) (hcall : s.calls[call]? = some ⟨interval, .taken hb⟩) :
    Inv { s with
      heartbeats := s.heartbeats.set hb { h with running := false }
      calls := s.calls.set call ⟨interval, .waiting hb⟩ } := by
  refine ⟨fun i hi => ?_, fun i hi => ?_, fun i hi => ?_, interval_set hs hcall⟩
  · obtain ⟨⟨h', hh', hrunning⟩, htaken⟩ := hs.stored i hi
    have hne : hb ≠ i := by
      rintro rfl
      exact htaken ⟨_, List.mem_of_getElem? hcall, rfl⟩
    refine ⟨⟨h', ?_, hrunning⟩, fun hat => htaken (of_exists_mem_set (by simp) hat)⟩
    exact (List.getElem?_set_ne hne).trans hh'
  · obtain ⟨h', hh', hlive⟩ := hi
    rcases getElem?_set_cases hh' with ⟨rfl, rfl⟩ | ⟨hne, hold⟩
    · exact Or.inr ⟨_, mem_set_of_getElem? _ hcall, rfl⟩
    · refine (hs.ended i ⟨h', hold, hlive⟩).imp ?_ (at_set hcall (by simp))
      rintro ⟨h'', hh'', hrunning⟩
      exact ⟨h'', (List.getElem?_set_ne hne).trans hh'', hrunning⟩
  · simp only [List.length_set]
    exact hs.taken i (of_exists_mem_set (by simp) hi)

theorem running_exit {s : HeartbeatState} {hb : Nat} {h : Heartbeat} {wg : Nat}
    (hh : s.heartbeats[hb]? = some h) (i : Nat) :
    Running { s with heartbeats := s.heartbeats.set hb { h with wg := wg } } i ↔ s.Running i := by
  simp only [Running]
  by_cases hne : hb = i
  · subst hne
    simp [List.getElem?_set_self (List.getElem?_eq_some_iff.mp hh).1, hh]
  · rw [List.getElem?_set_ne hne]

theorem Inv.exit {s : HeartbeatState} {hb : Nat} {h : Heartbeat} (hs : s.Inv)
    (hh : s.heartbeats[hb]? = some h) (hwg : 0 < h.wg) :
    Inv { s with heartbeats := s.heartbeats.set hb { h with wg := h.wg - 1 } } := by
  refine ⟨fun i hi => ?_, fun i hi => ?_, fun i hi => ?_, hs.interval⟩
  · exact ⟨(running_exit hh i).mpr (hs.stored i hi).1, (hs.stored i hi).2⟩
  · refine (hs.ended i ?_).imp (running_exit hh i).mpr id
    obtain ⟨h', hh', hlive⟩ := hi
    rcases getElem?_set_cases hh' with ⟨rfl, rfl⟩ | ⟨_, hold⟩
    · exact ⟨h, hh, Or.inr hwg⟩
    · exact ⟨h', hold, hlive⟩
  · simp only [List.length_set]
    exact hs.taken i hi

theorem start_new {interval : Int} (hpos : 0 < interval) :
    Heartbeat.start {} interval = ({ running := true, wg := 1 }, false) := by
  simp only [Heartbeat.start, Bool.false_eq_true, if_false]
  rw [if_neg (by omega)]

theorem running_store {s : HeartbeatState} {interval : Int} (hpos : 0 < interval)
    (heartbeat : Option Nat) (calls : List HeartbeatCall) (i : Nat) :
    Running ⟨s.heartbeats ++ [(Heartbeat.start {} interval).1], heartbeat, calls⟩ i ↔
      s.Running i ∨ i = s.heartbeats.length := by
  rw [start_new hpos]
  constructor
  · rintro ⟨h, hh, hrunning⟩
    exact (getElem?_concat_cases hh).imp (fun hold => ⟨h, hold, hrunning⟩) And.left
  · rintro (⟨h, hold, hrunning⟩ | rfl)
    · exact ⟨h, (List.getElem?_append_left (List.getElem?_eq_some_iff.mp hold).1).trans hold,
        hrunning⟩
    · exact ⟨_, List.getElem?_concat_length, rfl⟩

theorem Inv.store {s : HeartbeatState} {call : Nat} {interval : Int} (hs : s.Inv)
    (hcall : s.calls[call]? = some ⟨some interval, .stopped⟩) :
    Inv { s with
      heartbeats := s.heartbeats ++ [(Heartbeat.start {} interval).1]
      heartbeat := some s.heartbeats.length
      calls := s.calls.set call ⟨some interval, .returned⟩ } := by
  have hpos := hs.interval _ (List.mem_of_getElem? hcall) interval rfl
  refine ⟨fun i hi => ?_, fun i hi => ?_, fun i hi => ?_, interval_set hs hcall⟩
  · obtain rfl := Option.some.inj hi
    refine ⟨(running_store hpos _ _ _).mpr (Or.inr rfl), fun hat => ?_⟩
    exact Nat.lt_irrefl _ (hs.taken _ (of_exists_mem_set (by simp) hat))
  · obtain ⟨h', hh', hlive⟩ := hi
    rcases getElem?_concat_cases hh' with hold | ⟨rfl, _⟩
    · refine (hs.ended i ⟨h', hold, hlive⟩).imp (fun hrunning => ?_) (at_set hcall (by simp))
      exact (running_store hpos _ _ _).mpr (Or.inl hrunning)
    · exact Or.inl ((running_store hpos _ _ _).mpr (Or.inr rfl))
  · have hlt := hs.taken i (of_exists_mem_set (by simp) hi)
    rw [List.length_append]
    omega

theorem exec_inv (e : HeartbeatEvent) (s s' : HeartbeatState) (hs : s.Inv)
    (hexec : e.exec s = some s') : s'.Inv := by
  cases e with
  | startHeartbeat interval =>
    obtain rfl := Option.some.inj hexec
    split
    · exact hs
    · rename_i hpos
      refine hs.take fun t ht => ?_
      obtain rfl := Option.some.inj ht
      omega
  | stopHeartbeat =>
    obtain rfl := Option.some.inj hexec
    exact hs.take fun t ht => by cases ht
  | stop call =>
    obtain ⟨interval, hb, h, hcall, hh, ⟨_, rfl⟩ | ⟨_, rfl⟩⟩ := exec_stop hexec
    · exact Inv.stop hs hcall
    · exact Inv.afterStop hs hcall fun i hi => by cases hi
  | exit hb =>
    obtain ⟨h, hh, ⟨_, hwg⟩, rfl⟩ := exists_of_guarded hexec
    exact Inv.exit hs hh hwg
  | wait call =>
    obtain ⟨interval, hb, h, hcall, hh, hwg, rfl⟩ := exec_wait hexec
    refine Inv.afterStop hs hcall fun i hi hlive => ?_
    cases hi
    obtain ⟨h', hh', hlive⟩ := hlive
    obtain rfl := Option.some.inj (hh.symm.trans hh')
    exact ⟨h, hh, hlive.resolve_right (by omega)⟩
  | store call =>
    obtain ⟨interval, hcall, rfl⟩ := exec_store hexec
    exact Inv.store hs hcall

/-- A running heartbeat stays in someone's hands as long as none is stored over another. -/
theorem exec_owned (e : HeartbeatEvent) (s s' : HeartbeatState) (hs : s.Inv ∧ s.Owned)
    (hgood : e.StoresAlone s) (hexec : e.exec s = some s') : s'.Inv ∧ s'.Owned := by
  refine ⟨e.exec_inv s s' hs.1 hexec, ?_⟩
  obtain ⟨hinv, howned⟩ := hs
  cases e with
  | startHeartbeat interval =>
    obtain rfl := Option.some.inj hexec
    split
    · exact howned
    · exact howned.take _
  | stopHeartbeat =>
    obtain rfl := Option.some.inj hexec
    exact howned.take none
  | stop call =>
    obtain ⟨interval, hb, h, hcall, hh, ⟨_, rfl⟩ | ⟨hrunning, rfl⟩⟩ := exec_stop hexec
    · rintro i ⟨h', hh', hrunning'⟩
      rcases getElem?_set_cases hh' with ⟨rfl, rfl⟩ | ⟨hne, hold⟩
      · cases hrunning'
      · exact (howned i ⟨h', hold, hrunning'⟩).imp id (at_set hcall (by simpa using hne))
    · rintro i ⟨h', hh', hrunning'⟩
      have hne : hb ≠ i := by
        rintro rfl
        obtain rfl := Option.some.inj (hh.symm.trans hh')
        cases hrunning.symm.trans hrunning'
      exact (howned i ⟨h', hh', hrunning'⟩).imp id (at_set hcall (by simpa using hne))
  | exit hb =>
    obtain ⟨h, hh, _, rfl⟩ := exists_of_guarded hexec
    exact fun i hi => howned i ((running_exit hh i).mp hi)
  | wait call =>
    obtain ⟨interval, hb, h, hcall, _, _, rfl⟩ := exec_wait hexec
    exact fun i hi => (howned i hi).imp id (at_set hcall (by simp))
  | store call =>
    obtain ⟨interval, hcall, rfl⟩ := exec_store hexec
    have hpos := hinv.interval _ (List.mem_of_getElem? hcall) interval rfl
    intro i hi
    rcases (running_store hpos _ _ _).mp hi with hi | rfl
    · refine Or.inr (at_set hcall (by simp) ((howned i hi).resolve_left fun hstored => ?_))
      cases (show s.heartbeat = none from hgood).symm.trans hstored
    · exact Or.inl rfl

theorem exec_overwrite (e : HeartbeatEvent) (s s' : HeartbeatState) (hs : s.Inv)
    (hbad : ¬e.StoresAlone s) (hexec : e.exec s = some s') : s'.Lost := by
  cases e with
  | store call =>
    obtain ⟨interval, hcall, rfl⟩ := exec_store hexec
    have hpos := hs.interval _ (List.mem_of_getElem? hcall) interval rfl
    obtain ⟨i, hi⟩ := Option.ne_none_iff_exists'.mp hbad
    obtain ⟨hrunning, htaken⟩ := hs.stored i hi
    refine ⟨i, (running_store hpos _ _ _).mpr (Or.inl hrunning), ?_, fun hat => ?_⟩
    · exact fun hsame => Nat.ne_of_gt hrunning.lt (Option.some.inj hsame)
    · exact htaken (of_exists_mem_set (by simp) hat)
  | startHeartbeat _ | stopHeartbeat | stop _ | exit _ | wait _ => exact absurd trivial hbad

/-- A lost heartbeat stays lost: no call will ever stop it. -/
theorem exec_lost (e : HeartbeatEvent) (s s' : HeartbeatState) (hs : s.Inv ∧ s.Lost)
    (hexec : e.exec s = some s') : s'.Lost := by
  obtain ⟨hinv, i, hrunning, hstored, htaken⟩ := hs
  cases e with
  | startHeartbeat interval =>
    obtain rfl := Option.some.inj hexec
    split
    · exact ⟨i, hrunning, hstored, htaken⟩
    · exact Lost.take ⟨i, hrunning, hstored, htaken⟩ _
  | stopHeartbeat =>
    obtain rfl := Option.some.inj hexec
    exact Lost.take ⟨i, hrunning, hstored, htaken⟩ none
  | stop call =>
    obtain ⟨interval, hb, h, hcall, hh, ⟨_, rfl⟩ | ⟨_, rfl⟩⟩ := exec_stop hexec
    · obtain ⟨h', hh', hrunning'⟩ := hrunning
      have hne : hb ≠ i := by
        rintro rfl
        exact htaken ⟨_, List.mem_of_getElem? hcall, rfl⟩
      refine ⟨i, ⟨h', (List.getElem?_set_ne hne).trans hh', hrunning'⟩, hstored, fun hat => ?_⟩
      exact htaken (of_exists_mem_set (by simp) hat)
    · refine ⟨i, hrunning, hstored, fun hat => ?_⟩
      exact htaken (of_exists_mem_set (afterStop_ne_taken interval i) hat)
  | exit hb =>
    obtain ⟨h, hh, _, rfl⟩ := exists_of_guarded hexec
    exact ⟨i, (running_exit hh i).mpr hrunning, hstored, htaken⟩
  | wait call =>
    obtain ⟨interval, hb, h, hcall, _, _, rfl⟩ := exec_wait hexec
    refine ⟨i, hrunning, hstored, fun hat => ?_⟩
    exact htaken (of_exists_mem_set (afterStop_ne_taken interval i) hat)
  | store call =>
    obtain ⟨interval, hcall, rfl⟩ := exec_store hexec
    have hpos := hinv.interval _ (List.mem_of_getElem? hcall) interval rfl
    refine ⟨i, (running_store hpos _ _ _).mpr (Or.inl hrunning), ?_, fun hat => ?_⟩
    · exact fun hsame => Nat.ne_of_gt hrunning.lt (Option.some.inj hsame)
    · exact htaken (of_exists_mem_set (by simp) hat)

end HeartbeatEvent

namespace HeartbeatState

/-- No heartbeat is stored, and every call in progress is a `StopHeartbeat`. -/
def Stopping (s : HeartbeatState) : Prop :=
  s.heartbeat = none ∧ ∀ c ∈ s.calls, c.phase ≠ .returned → c.interval = none

theorem Stopping.take {s : HeartbeatState}
    (h : ∀ c ∈ s.calls, c.phase ≠ .returned → c.interval = none) : (s.take none).Stopping := by
  refine ⟨rfl, fun c hc hphase => ?_⟩
  rcases List.mem_append.mp hc with hc | hc
  · exact h c hc hphase
  · obtain rfl := List.mem_singleton.mp hc
    rfl

theorem Stopping.set {s : HeartbeatState} {call : Nat} {interval : Option Int}
    {p p' : HeartbeatPhase} (h : s.Stopping) (hcall : s.calls[call]? = some ⟨interval, p⟩)
    (hp : p ≠ .returned) (heartbeats : List Heartbeat) :
    Stopping { s with heartbeats, calls := s.calls.set call ⟨interval, p'⟩ } := by
  refine ⟨h.1, fun c hc hphase => ?_⟩
  rcases List.mem_or_eq_of_mem_set hc with hc | rfl
  · exact h.2 c hc hphase
  · exact h.2 ⟨interval, p⟩ (List.mem_of_getElem? hcall) hp

end HeartbeatState

namespace HeartbeatEvent

open HeartbeatState

/-- The event is not the beginning of a `StartHeartbeat`. -/
def StartsNone : HeartbeatEvent → Prop
  | .startHeartbeat _ => False
  | _ => True

/-- Where only `StopHeartbeat` calls are in progress nothing is stored. -/
theorem exec_stopping (e : HeartbeatEvent) (s s' : HeartbeatState) (hs : s.Stopping)
    (hnone : e.StartsNone) (hexec : e.exec s = some s') : s'.Stopping := by
  cases e with
  | startHeartbeat interval => cases hnone
  | stopHeartbeat =>
    obtain rfl := Option.some.inj hexec
    exact Stopping.take hs.2
  | stop call =>
    obtain ⟨interval, hb, h, hcall, hh, ⟨_, rfl⟩ | ⟨_, rfl⟩⟩ := exec_stop hexec
    · exact hs.set hcall (by simp) _
    · exact hs.set hcall (by simp) _
  | exit hb =>
    obtain ⟨h, hh, _, rfl⟩ := exists_of_guarded hexec
    exact hs
  | wait call =>
    obtain ⟨interval, hb, h, hcall, _, _, rfl⟩ := exec_wait hexec
    exact hs.set hcall (by simp) _
  | store call =>
    obtain ⟨interval, hcall, rfl⟩ := exec_store hexec
    cases hs.2 _ (List.mem_of_getElem? hcall) (by simp)

theorem exec_unstarted (e : HeartbeatEvent) (s s' : HeartbeatState)
    (hs : (s.Inv ∧ s.Owned) ∧ s.Stopping) (hnone : e.StartsNone) (hexec : e.exec s = some s') :
    (s'.Inv ∧ s'.Owned) ∧ s'.Stopping := by
  have halone : e.StoresAlone s := by
    cases e with
    | store call => exact hs.2.1
    | startHeartbeat _ | stopHeartbeat | stop _ | exit _ | wait _ => exact trivial
  exact ⟨e.exec_owned s s' hs.1 halone hexec, e.exec_stopping s s' hs.2 hnone hexec⟩

end HeartbeatEvent

namespace HeartbeatState

theorem initial_inv : Inv {} := by
  refine ⟨fun i hi => ?_, fun i hi => ?_, fun i hi => ?_, fun c hc => ?_⟩
  · cases hi
  · obtain ⟨h, hh, _⟩ := hi
    cases hh
  · obtain ⟨c, hc, _⟩ := hi
    cases hc
  · cases hc

theorem initial_owned : Owned {} := by
  rintro i ⟨h, hh, _⟩
  cases hh

theorem Quiescent.stored {s : HeartbeatState} (hquiet : s.Quiescent) (hs : s.Inv ∧ s.Owned)
    {hb : Nat} (hlive : s.Live hb) : s.heartbeat = some hb := by
  have hrunning : s.Running hb := (hs.1.ended hb hlive).resolve_right (hquiet.not_at (by simp))
  exact (hs.2 hb hrunning).resolve_right (hquiet.not_at (by simp))

end HeartbeatState

open HeartbeatEvent HeartbeatState

/-- Whenever no call is in progress, every heartbeat that runs is the one in the server if and
only if no `StartHeartbeat` has stored its heartbeat over another one. A `StopHeartbeat` then
leaves none running, whatever `StopHeartbeat` calls are made beside it. -/
theorem heartbeat_stored_iff {events : List HeartbeatEvent} {s : HeartbeatState}
    (hrun : replay exec events {} = some s) (hquiet : s.Quiescent) :
    ((∀ hb, s.Live hb → s.heartbeat = some hb) ↔ AllSteps exec StoresAlone events {}) ∧
    (AllSteps exec StoresAlone events {} → ∀ (later : List HeartbeatEvent) (s' : HeartbeatState),
      (∀ e ∈ later, e.StartsNone) → replay exec (.stopHeartbeat :: later) s = some s' →
      s'.Quiescent → ∀ hb, ¬s'.Live hb) := by
  have hstart : Inv {} ∧ Owned {} := ⟨initial_inv, initial_owned⟩
  refine ⟨⟨fun hstored => ?_, fun hgood hb hlive => ?_⟩, fun hgood later s' hnone hlater => ?_⟩
  · by_contra hbad
    obtain ⟨hb, ⟨h, hh, hrunning⟩, hlost, _⟩ :=
      replay_of_not_allSteps exec_inv exec_overwrite exec_lost initial_inv hbad hrun
    exact hlost (hstored hb ⟨h, hh, Or.inl hrunning⟩)
  · exact hquiet.stored (replay_invariant_of exec_owned hstart hgood hrun) hlive
  · have hs := replay_invariant_of exec_owned hstart hgood hrun
    have hfirst := exec_owned .stopHeartbeat s _ hs trivial rfl
    have hstopping : (s.take none).Stopping :=
      Stopping.take fun c hc hphase => absurd (hquiet c hc) hphase
    have hend := replay_invariant_of exec_unstarted ⟨hfirst, hstopping⟩
      (allSteps_of_forall hnone exec _) hlater
    intro hquiet' hb hlive
    cases hend.2.1.symm.trans (hquiet'.stored hend.1 hlive)

/-- The second `StartHeartbeat` begins while a `StopHeartbeat` waits for the first heartbeat, and
another `StopHeartbeat` finds none before the second one is stored. -/
def interleavedCalls : List HeartbeatEvent :=
  [.startHeartbeat 5, .store 0, .stopHeartbeat, .stop 1, .startHeartbeat 3, .exit 0,
    .stopHeartbeat, .wait 1, .store 2]

def afterInterleaved : HeartbeatState where
  heartbeats := [⟨false, 0⟩, ⟨true, 1⟩]
  heartbeat := some 1
  calls := [⟨some 5, .returned⟩, ⟨none, .returned⟩, ⟨some 3, .returned⟩, ⟨none, .returned⟩]

theorem heartbeat_stored_iff_interleaved :
    replay exec interleavedCalls {} = some afterInterleaved ∧
    ∀ hb, afterInterleaved.Live hb → some 1 = some hb := by
  have hrun : replay exec interleavedCalls {} = some afterInterleaved := rfl
  refine ⟨hrun, (heartbeat_stored_iff hrun (by decide)).1.mpr ?_⟩
  exact .cons trivial rfl <| .cons rfl rfl <| .cons trivial rfl <| .cons trivial rfl <|
    .cons trivial rfl <| .cons trivial rfl <| .cons trivial rfl <| .cons trivial rfl <|
    .cons rfl rfl trivial

/-- Two `StartHeartbeat` calls that both find no heartbeat both store one. The first of the two
is running when both have returned, and after a `StopHeartbeat`. -/
theorem two_heartbeats_running :
    ∃ s s', replay exec [.startHeartbeat 5, .startHeartbeat 5, .store 0, .store 1] {} = some s ∧
      s.Quiescent ∧ s.Live 0 ∧ s.Live 1 ∧ s.heartbeat = some 1 ∧
      replay exec [.stopHeartbeat, .stop 2, .exit 1, .wait 2] s = some s' ∧ s'.Quiescent ∧
      s'.Live 0 := by
  exact ⟨_, _, rfl, by decide, ⟨_, rfl, Or.inl rfl⟩, ⟨_, rfl, Or.inl rfl⟩, rfl, rfl, by decide,
    ⟨_, rfl, Or.inl rfl⟩⟩

end Catena.Go
