import Catena.Framework.Log
import Catena.Framework.Modify
import Catena.Framework.Replay

/-!
# A thread for each connection

A server accepts connections until it is shut down, and starts a thread for each. It counts the
threads that have not ended, in 32 bits, and returns when there is none. A thread that starts after
the shutdown refuses its connection. The threads interleave at every step of their code, and a
section under a lock is one step. A write that fails, and those after it, do not stop the thread.
-/

namespace Catena.Framework.Handlers

/-- The code of a thread. A section under a lock acts on the world, and the code goes on with what
the section has found in it. To abort ends the process. -/
inductive Code (W A O : Type) where
  | done
  | locked (a : A) (next : W → Code W A O)
  | write (o : O) (next : Code W A O)
  | abort

variable {W A O C : Type}

/-- Code runs to the rest of it, through sections and over what it writes. -/
inductive Code.Runs : Code W A O → List (A × W) → List O → Code W A O → Prop
  | refl (code : Code W A O) : Runs code [] [] code
  | locked {a : A} {next : W → Code W A O} {w : W} {seen : List (A × W)} {written : List O}
      {rest : Code W A O} (h : Runs (next w) seen written rest) :
      Runs (.locked a next) ((a, w) :: seen) written rest
  | write {o : O} {next : Code W A O} {seen : List (A × W)} {written : List O}
      {rest : Code W A O} (h : Runs next seen written rest) :
      Runs (.write o next) seen (o :: written) rest

namespace Code

variable {code : Code W A O} {seen : List (A × W)} {written : List O}

theorem Runs.locked_concat {a : A} {next : W → Code W A O}
    (h : code.Runs seen written (.locked a next)) (w : W) :
    code.Runs (seen ++ [(a, w)]) written (next w) := by
  generalize hrest : Code.locked a next = rest at h
  induction h with
  | refl code =>
    subst hrest
    exact .locked (.refl _)
  | locked h ih => exact .locked (ih hrest)
  | write h ih => exact .write (ih hrest)

theorem Runs.write_concat {o : O} {next : Code W A O}
    (h : code.Runs seen written (.write o next)) : code.Runs seen (written ++ [o]) next := by
  generalize hrest : Code.write o next = rest at h
  induction h with
  | refl code =>
    subst hrest
    exact .write (.refl _)
  | locked h ih => exact .locked (ih hrest)
  | write h ih => exact .write (ih hrest)

def Ends (code : Code W A O) (seen : List (A × W)) (written : List O) : Prop :=
  code.Runs seen written .done

theorem ends_done : (done : Code W A O).Ends seen written ↔ seen = [] ∧ written = [] := by
  constructor
  · intro h
    cases h
    exact ⟨rfl, rfl⟩
  · rintro ⟨rfl, rfl⟩
    exact .refl _

theorem ends_locked {a : A} {next : W → Code W A O} :
    (locked a next).Ends seen written ↔
      ∃ w seen', seen = (a, w) :: seen' ∧ (next w).Ends seen' written := by
  constructor
  · intro h
    cases h with
    | locked h => exact ⟨_, _, rfl, h⟩
  · rintro ⟨w, seen', rfl, h⟩
    exact .locked h

theorem ends_write {o : O} {next : Code W A O} :
    (write o next).Ends seen written ↔ ∃ written', written = o :: written' ∧
      next.Ends seen written' := by
  constructor
  · intro h
    cases h with
    | write h => exact ⟨_, rfl, h⟩
  · rintro ⟨written', rfl, h⟩
    exact .write h

theorem not_ends_abort : ¬(abort : Code W A O).Ends seen written := by
  intro h
  cases h

/-- Whatever the sections find, `Q` holds of all that has been written when the code ends. -/
def Posts (Q : List O → Prop) : Code W A O → List O → Prop
  | .done, before => Q before
  | .locked _ next, before => ∀ w, (next w).Posts Q before
  | .write o next, before => next.Posts Q (before ++ [o])
  | .abort, _ => True

theorem Ends.posts {Q : List O → Prop} {before : List O} (h : code.Ends seen written)
    (hcode : code.Posts Q before) : Q (before ++ written) := by
  unfold Ends at h
  generalize hrest : (done : Code W A O) = rest at h
  induction h generalizing before with
  | refl code =>
    subst hrest
    rw [List.append_nil]
    exact hcode
  | locked h ih => exact ih (hcode _) hrest
  | write h ih =>
    rw [List.append_cons]
    exact ih hcode hrest

/-- The actions of all sections of the code have a property. -/
def Acts (P : A → Prop) : Code W A O → Prop
  | .done => True
  | .locked a next => P a ∧ ∀ w, (next w).Acts P
  | .write _ next => next.Acts P
  | .abort => True

theorem Runs.acts {P : A → Prop} {rest : Code W A O} (h : code.Runs seen written rest)
    (hcode : code.Acts P) : ∀ e ∈ seen, P e.1 := by
  induction h with
  | refl code => exact fun e he => (by cases he)
  | locked h ih =>
    intro e he
    rcases List.mem_cons.mp he with rfl | he
    · exact hcode.1
    · exact ih (hcode.2 _) e he
  | write h ih => exact ih hcode

end Code

/-- Where a thread stands: before it has looked at the flag, in its code, or at its end. -/
inductive Stage (W A O : Type) where
  | accepted
  | running (code : Code W A O)
  | ended

/-- The thread of a connection. It remembers what its sections have done and found, and what it
has written. The connection is broken once a write has failed. -/
structure Thread (W A O C : Type) where
  conn : C
  stage : Stage W A O := .accepted
  refused : Bool := false
  broken : Bool := false
  seen : List (A × W) := []
  written : List O := []

/-- How a connection is served, how it is refused, and what the actions do. -/
structure Server (W A O C : Type) where
  serve : C → Code W A O
  refuse : C → Code W A O
  act : A → W → W

/-- Where the loop that accepts connections stands. -/
inductive Main (C : Type) where
  | test
  | accept
  | count (conn : C)
  | start (conn : C)
  | wait
  | returned

structure State (W A O C : Type) where
  world : W
  main : Main C := .test
  shutdown : Bool := false
  active : UInt32 := 0
  threads : List (Thread W A O C) := []
  aborted : Bool := false
  log : List (Option Nat × A) := []

/-- The loop takes a step, a thread takes a step, the flag is set, or the rest of the process acts.
A connection arrives when the loop accepts one, and it fails when a thread writes. -/
inductive Event (A C : Type) where
  | main (conn : C)
  | run (thread : Nat) (fails : Bool)
  | shutDown
  | act (a : A)

namespace Thread

def action (t : Thread W A O C) : Option A :=
  match t.stage with
  | .running (.locked a _) => some a
  | _ => none

def ends (t : Thread W A O C) : Bool :=
  match t.stage with
  | .running .done => true
  | _ => false

def aborts (t : Thread W A O C) : Bool :=
  match t.stage with
  | .running .abort => true
  | _ => false

def isOpen (t : Thread W A O C) : Bool :=
  match t.stage with
  | .ended => false
  | _ => true

end Thread

namespace Server

variable (srv : Server W A O C)

def code (t : Thread W A O C) : Code W A O :=
  if t.refused then srv.refuse t.conn else srv.serve t.conn

/-- The next step of a thread. -/
def next (fails shutdown : Bool) (w : W) (t : Thread W A O C) : Option (Thread W A O C) :=
  match t.stage with
  | .accepted =>
      let t := { t with refused := shutdown }
      some { t with stage := .running (srv.code t) }
  | .running .done => some { t with stage := .ended }
  | .running (.locked a next) =>
      some { t with stage := .running (next w), seen := t.seen ++ [(a, w)] }
  | .running (.write o next) =>
      let broken := t.broken || fails
      some { t with
        stage := .running next, broken, written := if broken then t.written else t.written ++ [o] }
  | .running .abort => some t
  | .ended => none

/-- A thread takes a step, which the count of the threads follows. -/
def exec (s : State W A O C) (j : Nat) (t t' : Thread W A O C) : State W A O C :=
  { s with
    world := t.action.elim s.world fun a => srv.act a s.world
    active := if t.ends then s.active - 1 else s.active
    threads := s.threads.set j t'
    aborted := t.aborts
    log := s.log ++ t.action.toList.map fun a => (some j, a) }

/-- The next step of the loop. It waits while a thread is counted. -/
def loop (s : State W A O C) (conn : C) : Option (State W A O C) :=
  match s.main with
  | .test => some { s with main := if s.shutdown then .wait else .accept }
  | .accept => some { s with main := .count conn }
  | .count conn => some { s with main := .start conn, active := s.active + 1 }
  | .start conn => some { s with main := .test, threads := s.threads ++ [{ conn }] }
  | .wait => if 0 < s.active then none else some { s with main := .returned }
  | .returned => none

def happen (s : State W A O C) : Event A C → Option (State W A O C)
  | .main conn => loop s conn
  | .run j fails =>
      s.threads[j]?.bind fun t => (srv.next fails s.shutdown s.world t).map (srv.exec s j t)
  | .shutDown => some { s with shutdown := true }
  | .act a => some { s with world := srv.act a s.world, log := s.log ++ [(none, a)] }

/-- Nothing happens any more once the process is aborted. -/
def step (e : Event A C) (s : State W A O C) : Option (State W A O C) :=
  if s.aborted then none else srv.happen s e

def Reaches (world : W) (s : State W A O C) : Prop :=
  ∃ events, replay srv.step events { world } = some s

variable {srv} {s s' : State W A O C} {e : Event A C}

theorem step_cases (h : srv.step e s = some s') :
    s.aborted = false ∧
    ((∃ conn, e = .main conn ∧ loop s conn = some s') ∨
      (∃ j fails t t', e = .run j fails ∧ s.threads[j]? = some t ∧
        srv.next fails s.shutdown s.world t = some t' ∧ s' = srv.exec s j t t') ∨
      (e = .shutDown ∧ s' = { s with shutdown := true }) ∨
      ∃ a, e = .act a ∧
        s' = { s with world := srv.act a s.world, log := s.log ++ [(none, a)] }) := by
  obtain ⟨haborted, h⟩ := Option.ite_none_left_eq_some.mp h
  refine ⟨Bool.eq_false_iff.mpr haborted, ?_⟩
  cases e with
  | main conn => exact Or.inl ⟨conn, rfl, h⟩
  | run j fails =>
    obtain ⟨t, ht, hnext⟩ := Option.bind_eq_some_iff.mp h
    obtain ⟨t', ht', rfl⟩ := Option.map_eq_some_iff.mp hnext
    exact Or.inr (Or.inl ⟨j, fails, t, t', rfl, ht, ht', rfl⟩)
  | shutDown => exact Or.inr (Or.inr (Or.inl ⟨rfl, (Option.some.inj h).symm⟩))
  | act a => exact Or.inr (Or.inr (Or.inr ⟨a, rfl, (Option.some.inj h).symm⟩))

/-- The step of the loop changes the count and the list of the threads at two places. -/
theorem loop_cases {conn : C} (h : loop s conn = some s') :
    (s.main = .test ∧ s' = { s with main := if s.shutdown then .wait else .accept }) ∨
    (s.main = .accept ∧ s' = { s with main := .count conn }) ∨
    (∃ conn', s.main = .count conn' ∧
      s' = { s with main := .start conn', active := s.active + 1 }) ∨
    (∃ conn', s.main = .start conn' ∧
      s' = { s with main := .test, threads := s.threads ++ [{ conn := conn' }] }) ∨
    s.main = .wait ∧ s.active = 0 ∧ s' = { s with main := .returned } := by
  cases hmain : s.main with
  | test =>
    simp only [loop, hmain] at h
    exact Or.inl ⟨rfl, (Option.some.inj h).symm⟩
  | accept =>
    simp only [loop, hmain] at h
    exact Or.inr (Or.inl ⟨rfl, (Option.some.inj h).symm⟩)
  | count conn' =>
    simp only [loop, hmain] at h
    exact Or.inr (Or.inr (Or.inl ⟨conn', rfl, (Option.some.inj h).symm⟩))
  | start conn' =>
    simp only [loop, hmain] at h
    exact Or.inr (Or.inr (Or.inr (Or.inl ⟨conn', rfl, (Option.some.inj h).symm⟩)))
  | wait =>
    simp only [loop, hmain] at h
    obtain ⟨hactive, h⟩ := Option.ite_none_left_eq_some.mp h
    refine Or.inr (Or.inr (Or.inr (Or.inr ⟨rfl, ?_, (Option.some.inj h).symm⟩)))
    simpa using hactive
  | returned =>
    simp only [loop, hmain] at h
    cases h

theorem Reaches.step {world : W} (h : srv.Reaches world s) (hstep : srv.step e s = some s') :
    srv.Reaches world s' := by
  obtain ⟨events, h⟩ := h
  refine ⟨events ++ [e], ?_⟩
  rw [replay_append, h, Option.bind_some, replay_cons_some hstep]
  rfl

theorem reaches_getD {world : W} {events : List (Event A C)}
    (h : (replay srv.step events { world }).isSome = true) :
    srv.Reaches world ((replay srv.step events { world }).getD { world }) := by
  obtain ⟨s, hs⟩ := Option.isSome_iff_exists.mp h
  refine ⟨events, ?_⟩
  rw [hs]
  rfl

theorem reaches_invariant {world : W} {P : State W A O C → Prop} (hstart : P { world })
    (hstep : ∀ e s s', P s → srv.step e s = some s' → P s') (h : srv.Reaches world s) : P s := by
  obtain ⟨events, h⟩ := h
  exact replay_invariant hstep hstart h

/-- A step of a thread, by where it stands. -/
theorem next_cases {fails shutdown : Bool} {w : W} {t t' : Thread W A O C}
    (h : srv.next fails shutdown w t = some t') :
    (t.stage = .accepted ∧ t' = { t with
      refused := shutdown, stage := .running (srv.code { t with refused := shutdown }) }) ∨
    (t.stage = .running .done ∧ t' = { t with stage := .ended }) ∨
    (∃ a next, t.stage = .running (.locked a next) ∧
      t' = { t with stage := .running (next w), seen := t.seen ++ [(a, w)] }) ∨
    (∃ o next, t.stage = .running (.write o next) ∧
      t' = { t with
        stage := .running next, broken := t.broken || fails,
        written := if t.broken || fails then t.written else t.written ++ [o] }) ∨
    t.stage = .running .abort ∧ t' = t := by
  cases hstage : t.stage with
  | accepted =>
    simp only [next, hstage] at h
    exact Or.inl ⟨rfl, (Option.some.inj h).symm⟩
  | ended =>
    simp only [next, hstage] at h
    cases h
  | running code =>
    cases code with
    | done =>
      simp only [next, hstage] at h
      exact Or.inr (Or.inl ⟨rfl, (Option.some.inj h).symm⟩)
    | locked a rest =>
      simp only [next, hstage] at h
      exact Or.inr (Or.inr (Or.inl ⟨a, rest, rfl, (Option.some.inj h).symm⟩))
    | write o rest =>
      simp only [next, hstage] at h
      exact Or.inr (Or.inr (Or.inr (Or.inl ⟨o, rest, rfl, (Option.some.inj h).symm⟩)))
    | abort =>
      simp only [next, hstage] at h
      exact Or.inr (Or.inr (Or.inr (Or.inr ⟨rfl, (Option.some.inj h).symm⟩)))

/-- What holds of new threads and is kept by their steps holds of all threads. -/
theorem threads_step {P : Thread W A O C → Prop} (hnew : ∀ conn, P { conn })
    (hnext : ∀ t t' fails w, P t → srv.next fails s.shutdown w t = some t' → P t')
    (hs : ∀ t ∈ s.threads, P t) (hstep : srv.step e s = some s') : ∀ t ∈ s'.threads, P t := by
  obtain ⟨_, ⟨conn, _, hloop⟩ | ⟨j, fails, t, t', _, ht, ht', rfl⟩ | ⟨_, rfl⟩ | ⟨a, _, rfl⟩⟩ :=
    step_cases hstep
  · obtain ⟨_, rfl⟩ | ⟨_, rfl⟩ | ⟨conn', _, rfl⟩ | ⟨conn', _, rfl⟩ | ⟨_, _, rfl⟩ :=
      loop_cases hloop
    · exact hs
    · exact hs
    · exact hs
    · intro t ht
      rcases List.mem_append.mp ht with ht | ht
      · exact hs t ht
      · obtain rfl := List.mem_singleton.mp ht
        exact hnew conn'
    · exact hs
  · intro t'' ht''
    rcases List.mem_or_eq_of_mem_set ht'' with hold | rfl
    · exact hs t'' hold
    · exact hnext t t'' fails s.world (hs t (List.mem_of_getElem? ht)) ht'
  · exact hs
  · exact hs

/-! ## Threads run their code -/

/-- What a thread has done is a run of its code. What it has written after its connection broke is
lost. -/
def Ran (srv : Server W A O C) (t : Thread W A O C) : Prop :=
  ∃ lost, (t.broken = false → lost = []) ∧
    match t.stage with
    | .accepted => t.seen = [] ∧ t.written ++ lost = []
    | .running rest => (srv.code t).Runs t.seen (t.written ++ lost) rest
    | .ended => (srv.code t).Ends t.seen (t.written ++ lost)

theorem Ran.next {fails shutdown : Bool} {w : W} {t t' : Thread W A O C} (hran : srv.Ran t)
    (h : srv.next fails shutdown w t = some t') : srv.Ran t' := by
  obtain ⟨lost, hlost, hran⟩ := hran
  obtain ⟨hstage, rfl⟩ | ⟨hstage, rfl⟩ | ⟨a, rest, hstage, rfl⟩ | ⟨o, rest, hstage, rfl⟩ |
    ⟨hstage, rfl⟩ := next_cases h
  · rw [hstage] at hran
    obtain ⟨hseen, hwritten⟩ := hran
    refine ⟨lost, hlost, ?_⟩
    simp only [hseen, hwritten]
    exact .refl _
  · rw [hstage] at hran
    exact ⟨lost, hlost, hran⟩
  · rw [hstage] at hran
    exact ⟨lost, hlost, hran.locked_concat w⟩
  · rw [hstage] at hran
    have hrest := hran.write_concat
    cases hbroken : t.broken || fails with
    | true =>
      refine ⟨lost ++ [o], fun h => (by cases h), ?_⟩
      simp only [if_true]
      rw [← List.append_assoc]
      exact hrest
    | false =>
      obtain rfl := hlost (Bool.or_eq_false_iff.mp hbroken).1
      refine ⟨[], fun _ => rfl, ?_⟩
      rw [List.append_nil] at hrest
      simp only [Bool.false_eq_true, if_false, List.append_nil]
      exact hrest
  · exact ⟨lost, hlost, hran⟩

theorem ran_of_reaches {world : W} (h : srv.Reaches world s) : ∀ t ∈ s.threads, srv.Ran t :=
  reaches_invariant (P := fun s => ∀ t ∈ s.threads, srv.Ran t) (fun t ht => by cases ht)
    (fun _ _ _ hs hstep => threads_step (fun _ => ⟨[], fun _ => rfl, rfl, rfl⟩)
      (fun _ _ _ _ ht hn => ht.next hn) hs hstep) h

/-! ## The order of the sections -/

/-- The log says what the world is and what each thread has seen. -/
structure Recorded (srv : Server W A O C) (world : W) (s : State W A O C) : Prop where
  current : s.world = Log.after srv.act s.log world
  seen : ∀ j t, s.threads[j]? = some t → t.seen = Log.found srv.act j s.log world
  known : ∀ e ∈ s.log, ∀ j, e.1 = some j → j < s.threads.length

theorem seen_next {fails shutdown : Bool} {w : W} {t t' : Thread W A O C}
    (h : srv.next fails shutdown w t = some t') :
    t'.seen = t.seen ++ t.action.toList.map fun a => (a, w) := by
  obtain ⟨hstage, rfl⟩ | ⟨hstage, rfl⟩ | ⟨a, rest, hstage, rfl⟩ | ⟨o, rest, hstage, rfl⟩ |
    ⟨hstage, rfl⟩ := next_cases h <;> simp [Thread.action, hstage]

theorem Recorded.exec {world : W} (h : srv.Recorded world s) {j : Nat} {fails : Bool}
    {t t' : Thread W A O C} (ht : s.threads[j]? = some t)
    (hnext : srv.next fails s.shutdown s.world t = some t') :
    srv.Recorded world (srv.exec s j t t') := by
  have hj : j < s.threads.length := (List.getElem?_eq_some_iff.mp ht).1
  constructor
  · cases ha : t.action with
    | none => simpa [Server.exec, ha] using h.current
    | some a => simpa [Server.exec, ha, Log.after_concat] using congrArg (srv.act a) h.current
  · intro j' t'' ht''
    have hfound : Log.found srv.act j' (srv.exec s j t t').log world =
        Log.found srv.act j' s.log world ++
          if j = j' then t.action.toList.map fun a => (a, s.world) else [] := by
      cases ha : t.action with
      | none => simp [Server.exec, ha]
      | some a => simp [Server.exec, ha, Log.found_concat, h.current]
    rw [hfound]
    obtain ⟨rfl, rfl⟩ | ⟨hne, hold⟩ := getElem?_set_cases ht''
    · rw [if_pos rfl, seen_next hnext, h.seen j t ht]
    · rw [if_neg hne, List.append_nil]
      exact h.seen j' t'' hold
  · intro e he j' hj'
    have hlength : (srv.exec s j t t').threads.length = s.threads.length := List.length_set
    rw [hlength]
    rcases List.mem_append.mp he with he | he
    · exact h.known e he j' hj'
    · obtain ⟨a, _, rfl⟩ := List.mem_map.mp he
      obtain rfl := Option.some.inj hj'
      exact hj

theorem Recorded.loop {world : W} (h : srv.Recorded world s) {conn : C}
    (hloop : loop s conn = some s') : srv.Recorded world s' := by
  obtain ⟨_, rfl⟩ | ⟨_, rfl⟩ | ⟨conn', _, rfl⟩ | ⟨conn', _, rfl⟩ | ⟨_, _, rfl⟩ := loop_cases hloop
  · exact ⟨h.current, h.seen, h.known⟩
  · exact ⟨h.current, h.seen, h.known⟩
  · exact ⟨h.current, h.seen, h.known⟩
  · refine ⟨h.current, fun j t ht => ?_, fun e he j hj => ?_⟩
    · obtain hold | ⟨rfl, rfl⟩ := getElem?_concat_cases ht
      · exact h.seen j t hold
      · rw [Log.found_of_not_mem]
        intro e he hlength
        exact absurd (h.known e he _ hlength) (Nat.lt_irrefl _)
    · rw [List.length_append]
      exact Nat.lt_of_lt_of_le (h.known e he j hj) (Nat.le_add_right _ _)
  · exact ⟨h.current, h.seen, h.known⟩

theorem Recorded.step {world : W} (h : srv.Recorded world s) (hstep : srv.step e s = some s') :
    srv.Recorded world s' := by
  obtain ⟨_, ⟨conn, _, hloop⟩ | ⟨j, fails, t, t', _, ht, ht', rfl⟩ | ⟨_, rfl⟩ | ⟨a, _, rfl⟩⟩ :=
    step_cases hstep
  · exact h.loop hloop
  · exact h.exec ht ht'
  · exact ⟨h.current, h.seen, h.known⟩
  · refine ⟨?_, fun j t ht => ?_, fun e he j hj => ?_⟩
    · rw [Log.after_concat, ← h.current]
    · rw [Log.found_concat_none]
      exact h.seen j t ht
    · rcases List.mem_append.mp he with he | he
      · exact h.known e he j hj
      · obtain rfl := List.mem_singleton.mp he
        cases hj

theorem recorded_of_reaches {world : W} (h : srv.Reaches world s) : srv.Recorded world s := by
  refine reaches_invariant (P := srv.Recorded world) ?_ (fun _ _ _ hs hstep => hs.step hstep) h
  exact ⟨rfl, fun j t ht => (by cases ht), fun e he => (by cases he)⟩

theorem ends_of_found {world : W} (h : srv.Reaches world s) {j : Nat} {t : Thread W A O C}
    (ht : s.threads[j]? = some t) (hended : t.stage = .ended) :
    ∃ lost, (t.broken = false → lost = []) ∧
      (srv.code t).Ends (Log.found srv.act j s.log world) (t.written ++ lost) := by
  obtain ⟨lost, hlost, hran⟩ := ran_of_reaches h t (List.mem_of_getElem? ht)
  rw [hended] at hran
  rw [← (recorded_of_reaches h).seen j t ht]
  exact ⟨lost, hlost, hran⟩

/-- What the code of all threads does, the log has of all threads. -/
theorem acts_of_reaches {world : W} {P : A → Prop} (hserve : ∀ conn, (srv.serve conn).Acts P)
    (hrefuse : ∀ conn, (srv.refuse conn).Acts P) (h : srv.Reaches world s) {j : Nat} {a : A}
    (ha : (some j, a) ∈ s.log) : P a := by
  have hrecorded := recorded_of_reaches h
  have hj := hrecorded.known _ ha j rfl
  obtain ⟨t, ht⟩ : ∃ t, s.threads[j]? = some t := ⟨_, List.getElem?_eq_getElem hj⟩
  obtain ⟨w, hw⟩ := Log.mem_found srv.act ha world
  rw [← hrecorded.seen j t ht] at hw
  have hcode : (srv.code t).Acts P := by
    unfold code
    split
    · exact hrefuse t.conn
    · exact hserve t.conn
  obtain ⟨lost, _, hran⟩ := ran_of_reaches h t (List.mem_of_getElem? ht)
  cases hstage : t.stage with
  | accepted =>
    rw [hstage] at hran
    rw [hran.1] at hw
    cases hw
  | running rest =>
    rw [hstage] at hran
    exact Code.Runs.acts hran hcode _ hw
  | ended =>
    rw [hstage] at hran
    exact Code.Runs.acts hran hcode _ hw

end Server

end Catena.Framework.Handlers
