import Catena.Framework.Modify
import Catena.Framework.Replay

/-!
# Calls on a completion queue

A server makes one object for each call and posts operations to a completion queue in its name.
When an operation completes, some thread takes a turn of the object: it runs code that changes the
object and acts on the world, makes the object for the next call, posts further operations and
finally deletes the object. Completions arrive in any order, with or without success, and the
threads interleave at every step of their code.
-/

namespace Catena.Framework.Completion

/-- The kinds of call of a server, and what belongs to each. -/
structure Interface where
  Kind : Type
  World : Type
  Action : Type
  Request : Kind → Type
  State : Kind → Type
  Message : Kind → Type
  Answer : Kind → Type

variable {I : Interface}

/-- An operation: to wait for a request, to write a message, to finish with an answer. -/
inductive Op (I : Interface) (i : I.Kind) where
  | request
  | write (m : I.Message i)
  | finish (r : I.Answer i)

/-- The code of a turn. A section under a lock acts on the world, and the code goes on with what
the section has found in it. To abort ends the process. -/
inductive Code (I : Interface) (i : I.Kind) where
  | done
  | set (x : I.State i) (next : Code I i)
  | spawn (next : Code I i)
  | locked (a : I.Action) (next : I.World → Code I i)
  | post (op : Op I i) (next : Code I i)
  | delete (next : Code I i)
  | abort

/-- An object with the operations that have not completed and the code that its threads have still
to run. It remembers what it has posted, what its sections have done and what they have found. -/
structure Call (I : Interface) where
  kind : I.Kind
  req : I.Request kind
  state : I.State kind
  alive : Bool := true
  pending : List (Op I kind) := []
  threads : List (Code I kind) := []
  posted : List (Op I kind) := []
  seen : List (I.Action × I.World) := []
  refused : Bool := false
  spawned : Bool := false

/-- For every kind the request before one has arrived, the state at first, and the code of a turn;
and what the actions do. -/
structure Server (I : Interface) where
  blank : (i : I.Kind) → I.Request i
  fresh : (i : I.Kind) → I.State i
  proceed : (i : I.Kind) → I.Request i → I.State i → Bool → Code I i
  act : I.Action → I.World → I.World

/-- The objects in the order of their making. `fault` says that a deleted object has been used,
and `log` has the actions with the objects that took them. -/
structure Service (I : Interface) where
  world : I.World
  calls : List (Call I) := []
  fault : Bool := false
  aborted : Bool := false
  log : List (Option Nat × I.Action) := []

inductive Event (I : Interface) where
  | complete (call op : Nat) (ok : Bool) (req : (i : I.Kind) → I.Request i)
  | run (call thread : Nat)
  | act (a : I.Action)

namespace Code

variable {i : I.Kind}

def action : Code I i → Option I.Action
  | .locked a _ => some a
  | _ => none

def spawns : Code I i → Bool
  | .spawn _ => true
  | _ => false

def isAbort : Code I i → Bool
  | .abort => true
  | _ => false

/-- A section in which the process is aborted does not end. -/
def aborts (w : I.World) : Code I i → Bool
  | .abort => true
  | .locked _ next => (next w).isAbort
  | _ => false

def resume (threads : List (Code I i)) (t : Nat) : Code I i → List (Code I i)
  | .done => threads.eraseIdx t
  | next => threads.set t next

end Code

namespace Call

/-- An object after the first step of the code of its thread. -/
def run (c : Call I) (t : Nat) (w : I.World) : Code I c.kind → Call I
  | .done => { c with threads := c.threads.eraseIdx t }
  | .set x next => { c with state := x, threads := Code.resume c.threads t next }
  | .spawn next => { c with spawned := true, threads := Code.resume c.threads t next }
  | .locked a next => { c with
      seen := c.seen ++ [(a, w)]
      threads := Code.resume c.threads t (next w) }
  | .post op next => { c with
      pending := c.pending ++ [op]
      posted := c.posted ++ [op]
      threads := Code.resume c.threads t next }
  | .delete next => { c with alive := false, threads := Code.resume c.threads t next }
  | .abort => c

end Call

namespace Server

variable (srv : Server I)

/-- A new object, with the thread that runs its constructor. -/
def newCall (i : I.Kind) : Call I where
  kind := i
  req := srv.blank i
  state := srv.fresh i
  threads := [srv.proceed i (srv.blank i) (srv.fresh i) true]

def exec (s : Service I) (j : Nat) (c : Call I) (t : Nat) (code : Code I c.kind) : Service I where
  world := code.action.elim s.world fun a => srv.act a s.world
  calls := s.calls.set j (c.run t s.world code) ++ if code.spawns then [srv.newCall c.kind] else []
  fault := s.fault || !c.alive
  aborted := code.aborts s.world
  log := s.log ++ code.action.toList.map fun a => (some j, a)

/-- An operation completes, and a thread is started for the next turn. -/
def complete (c : Call I) (k : Nat) (ok : Bool) (req : I.Request c.kind) : Op I c.kind → Call I
  | .request =>
      let req := if ok then req else c.req
      { c with
        req
        refused := !ok
        pending := c.pending.eraseIdx k
        threads := c.threads ++ [srv.proceed c.kind req c.state ok] }
  | _ =>
      { c with
        pending := c.pending.eraseIdx k
        threads := c.threads ++ [srv.proceed c.kind c.req c.state ok] }

/-- What can happen, `none` if it cannot. -/
def happen (s : Service I) : Event I → Option (Service I)
  | .complete j k ok req =>
      s.calls[j]?.bind fun c => c.pending[k]?.map fun op =>
        { s with
          calls := s.calls.set j (srv.complete c k ok (req c.kind) op)
          fault := s.fault || !c.alive }
  | .run j t => s.calls[j]?.bind fun c => c.threads[t]?.map (srv.exec s j c t)
  | .act a => some { s with world := srv.act a s.world, log := s.log ++ [(none, a)] }

/-- Nothing happens any more once the process is aborted. -/
def step (e : Event I) (s : Service I) : Option (Service I) :=
  if s.aborted then none else srv.happen s e

def start (kinds : List I.Kind) (world : I.World) : Service I where
  world
  calls := kinds.map srv.newCall

def Reaches (kinds : List I.Kind) (world : I.World) (s : Service I) : Prop :=
  ∃ events, replay srv.step events (srv.start kinds world) = some s

variable {srv}

/-- A step is an action of the rest of the process, the completion of an operation, or a step of
a thread. -/
theorem step_cases {e : Event I} {s s' : Service I} (h : srv.step e s = some s') :
    s.aborted = false ∧
    ((∃ a, e = .act a ∧
        s' = { s with world := srv.act a s.world, log := s.log ++ [(none, a)] }) ∨
      (∃ j c k op ok req, e = .complete j k ok req ∧ s.calls[j]? = some c ∧
        c.pending[k]? = some op ∧ s' = { s with
          calls := s.calls.set j (srv.complete c k ok (req c.kind) op)
          fault := s.fault || !c.alive }) ∨
      ∃ j c t code, e = .run j t ∧ s.calls[j]? = some c ∧ c.threads[t]? = some code ∧
        s' = srv.exec s j c t code) := by
  obtain ⟨haborted, h⟩ := Option.ite_none_left_eq_some.mp h
  refine ⟨Bool.eq_false_iff.mpr haborted, ?_⟩
  cases e with
  | complete j k ok req =>
    obtain ⟨c, hc, hop⟩ := Option.bind_eq_some_iff.mp h
    obtain ⟨op, hop', rfl⟩ := Option.map_eq_some_iff.mp hop
    exact Or.inr (Or.inl ⟨j, c, k, op, ok, req, rfl, hc, hop', rfl⟩)
  | run j t =>
    obtain ⟨c, hc, hcode⟩ := Option.bind_eq_some_iff.mp h
    obtain ⟨code, hcode', rfl⟩ := Option.map_eq_some_iff.mp hcode
    exact Or.inr (Or.inr ⟨j, c, t, code, rfl, hc, hcode', rfl⟩)
  | act a => exact Or.inl ⟨a, rfl, (Option.some.inj h).symm⟩

theorem Reaches.step {kinds : List I.Kind} {world : I.World} {e : Event I} {s s' : Service I}
    (h : srv.Reaches kinds world s) (hstep : srv.step e s = some s') :
    srv.Reaches kinds world s' := by
  obtain ⟨events, h⟩ := h
  refine ⟨events ++ [e], ?_⟩
  rw [replay_append, h, Option.bind_some, replay_cons_some hstep]
  rfl

theorem reaches_getD {kinds : List I.Kind} {world : I.World} {events : List (Event I)}
    (h : (replay srv.step events (srv.start kinds world)).isSome = true) :
    srv.Reaches kinds world
      ((replay srv.step events (srv.start kinds world)).getD (srv.start kinds world)) := by
  obtain ⟨s, hs⟩ := Option.isSome_iff_exists.mp h
  refine ⟨events, ?_⟩
  rw [hs]
  rfl

theorem exists_idle {s : Service I} {j : Nat}
    (h : (s.calls[j]?.map fun c => c.threads.isEmpty) = some true) :
    ∃ c, s.calls[j]? = some c ∧ c.threads = [] := by
  obtain ⟨c, hc, hidle⟩ := Option.map_eq_some_iff.mp h
  exact ⟨c, hc, List.isEmpty_iff.mp hidle⟩

theorem reaches_invariant {kinds : List I.Kind} {world : I.World} {P : Service I → Prop}
    (hstart : P (srv.start kinds world))
    (hstep : ∀ e s s', srv.Reaches kinds world s → P s → srv.step e s = some s' → P s')
    {s : Service I} (h : srv.Reaches kinds world s) : P s := by
  obtain ⟨events, h⟩ := h
  have hboth : ∀ e s s', srv.Reaches kinds world s ∧ P s → srv.step e s = some s' →
      srv.Reaches kinds world s' ∧ P s' :=
    fun e s s' hs h => ⟨hs.1.step h, hstep e s s' hs.1 hs.2 h⟩
  exact (replay_invariant hboth ⟨⟨[], rfl⟩, hstart⟩ h).2

theorem calls_step {P : Call I → Prop} (hnew : ∀ i, P (srv.newCall i))
    (hcomplete : ∀ c k op ok req, P c → c.pending[k]? = some op → P (srv.complete c k ok req op))
    (hrun : ∀ c t w code, P c → c.threads[t]? = some code → P (c.run t w code))
    {e : Event I} {s s' : Service I} (hs : ∀ c ∈ s.calls, P c) (hstep : srv.step e s = some s') :
    ∀ c ∈ s'.calls, P c := by
  obtain ⟨_, ⟨a, _, rfl⟩ | ⟨j, c, k, op, ok, req, _, hc, hop, rfl⟩ |
    ⟨j, c, t, code, _, hc, hcode, rfl⟩⟩ := step_cases hstep
  · exact hs
  · intro c' hc'
    rcases List.mem_or_eq_of_mem_set hc' with hc' | rfl
    · exact hs c' hc'
    · exact hcomplete c k op ok (req c.kind) (hs c (List.mem_of_getElem? hc)) hop
  · intro c' hc'
    rcases List.mem_append.mp hc' with hc' | hc'
    · rcases List.mem_or_eq_of_mem_set hc' with hc' | rfl
      · exact hs c' hc'
      · exact hrun c t s.world code (hs c (List.mem_of_getElem? hc)) hcode
    · split at hc'
      · obtain rfl := List.mem_singleton.mp hc'
        exact hnew c.kind
      · cases hc'

theorem calls_invariant {P : Call I → Prop} (hnew : ∀ i, P (srv.newCall i))
    (hcomplete : ∀ c k op ok req, P c → c.pending[k]? = some op → P (srv.complete c k ok req op))
    (hrun : ∀ c t w code, P c → c.threads[t]? = some code → P (c.run t w code))
    {kinds : List I.Kind} {world : I.World} {s : Service I} (h : srv.Reaches kinds world s) :
    ∀ c ∈ s.calls, P c := by
  refine reaches_invariant (P := fun s => ∀ c ∈ s.calls, P c) ?_ ?_ h
  · intro c hc
    obtain ⟨i, _, rfl⟩ := List.mem_map.mp hc
    exact hnew i
  · intro e s s' _ hs hstep
    exact calls_step hnew hcomplete hrun hs hstep

end Server

end Catena.Framework.Completion
