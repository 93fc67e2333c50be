import Catena.Framework.Lifecycle
import Catena.Framework.Replace
import Mathlib.Logic.Hydra

/-!
# Shutting down

Once the queue is shut down no operation succeeds any more. Whatever the order in which the
operations fail and the threads run, a disciplined server comes to rest, and then its registry is
empty.
-/

namespace Catena.Framework.Completion

open Relation (CutExpand)

variable {I : Interface} {srv : Server I} {phase : (i : I.Kind) → I.State i → Phase}

/-- What the thread of an object or a failing operation makes of the object, and the objects that
it makes. -/
inductive Shrinks (srv : Server I) (phase : (i : I.Kind) → I.State i → Phase) :
    Call I → Call I → Prop where
  | complete (c : Call I) (k : Nat) (op : Op I c.kind) (req : I.Request c.kind)
      (sound : Sound phase c) (pending : c.pending[k]? = some op) :
      Shrinks srv phase (srv.complete c k false req op) c
  | run (c : Call I) (t : Nat) (w : I.World) (code : Code I c.kind) (sound : Sound phase c)
      (thread : c.threads[t]? = some code) (goesOn : code.aborts w = false) :
      Shrinks srv phase (c.run t w code) c
  | spawn (c : Call I) (t : Nat) (code : Code I c.kind) (sound : Sound phase c)
      (thread : c.threads[t]? = some code) (spawns : code.spawns = true) :
      Shrinks srv phase (srv.newCall c.kind) c

theorem Shrinks.sound {c c' : Call I} (h : Shrinks srv phase c' c) : Sound phase c := by
  cases h <;> assumption

/-- An object without operations changes by a step of its only thread. -/
theorem Shrinks.of_running {c c' : Call I} {code : Code I c.kind} (h : Shrinks srv phase c' c)
    (hpending : c.pending = []) (hthreads : c.threads = [code]) :
    (∃ w, code.aborts w = false ∧ c' = c.run 0 w code) ∨
      code.spawns = true ∧ c' = srv.newCall c.kind := by
  cases h with
  | complete _ k op req _ pending =>
    rw [hpending] at pending
    cases pending
  | run _ t w code' _ thread goesOn =>
    rw [hthreads] at thread
    obtain ⟨rfl, rfl⟩ := getElem?_singleton_eq thread
    exact Or.inl ⟨w, goesOn, rfl⟩
  | spawn _ t code' _ thread spawns =>
    rw [hthreads] at thread
    obtain ⟨rfl, rfl⟩ := getElem?_singleton_eq thread
    exact Or.inr ⟨spawns, rfl⟩

theorem Shrinks.of_awaiting {c c' : Call I} {ops : List (Op I c.kind)}
    (h : Shrinks srv phase c' c) (hpending : c.pending = ops) (hthreads : c.threads = []) :
    ∃ k op req, ops[k]? = some op ∧ c' = srv.complete c k false req op := by
  cases h with
  | complete _ k op req _ pending => exact ⟨k, op, req, hpending ▸ pending, rfl⟩
  | run _ t w code _ thread =>
    rw [hthreads] at thread
    cases thread
  | spawn _ t code _ thread =>
    rw [hthreads] at thread
    cases thread

theorem acc_idle {c : Call I} (hpending : c.pending = []) (hthreads : c.threads = []) :
    Acc (Shrinks srv phase) c := by
  refine ⟨c, fun c' hc' => ?_⟩
  obtain ⟨k, op, req, hop, _⟩ := hc'.of_awaiting hpending hthreads
  cases hop

/-- The induction is on the code that is still to run. -/
theorem acc_running {goal : Goal} {i : I.Kind} (code : Code I i) {spawns : Bool} {x : I.State i}
    (hspawn : spawns = true → ∀ i, Acc (Shrinks srv phase) (srv.newCall i))
    (hpost : goal ≠ .delete → ∀ (c : Call I) op, c.pending = [op] → c.threads = [] →
      Acc (Shrinks srv phase) c)
    (hfollows : code.Follows (phase i) goal spawns x) (c : Call I) (hkind : c.kind = i)
    (hpending : c.pending = []) (hthreads : c.threads = [hkind ▸ code]) :
    Acc (Shrinks srv phase) c := by
  induction code generalizing spawns x c with
  | done => cases hfollows
  | set y next ih =>
    subst hkind
    refine ⟨c, fun c' hc' => ?_⟩
    obtain ⟨w, _, rfl⟩ | ⟨hspawns, _⟩ := hc'.of_running hpending hthreads
    · refine ih hspawn hfollows (c.run 0 w (.set y next)) rfl hpending ?_
      exact (congrArg (fun l => Code.resume l 0 next) hthreads).trans
        (resume_of_ne_done (Code.Follows.ne_done hfollows))
    · cases hspawns
  | spawn next ih =>
    subst hkind
    obtain ⟨hgoal, hspawns, hnext⟩ := hfollows
    refine ⟨c, fun c' hc' => ?_⟩
    obtain ⟨w, _, rfl⟩ | ⟨_, rfl⟩ := hc'.of_running hpending hthreads
    · refine ih (fun h => by cases h) hnext (c.run 0 w (.spawn next)) rfl hpending ?_
      exact (congrArg (fun l => Code.resume l 0 next) hthreads).trans
        (resume_of_ne_done hnext.ne_done)
    · exact hspawn hspawns c.kind
  | locked a next ih =>
    subst hkind
    refine ⟨c, fun c' hc' => ?_⟩
    obtain ⟨w, _, rfl⟩ | ⟨hspawns, _⟩ := hc'.of_running hpending hthreads
    · refine ih w hspawn (hfollows w) (c.run 0 w (.locked a next)) rfl hpending ?_
      exact (congrArg (fun l => Code.resume l 0 (next w)) hthreads).trans
        (resume_of_ne_done (hfollows w).ne_done)
    · cases hspawns
  | post op next ih =>
    subst hkind
    obtain ⟨_, rfl, hposts⟩ := hfollows
    have hgoal : goal ≠ .delete := by
      rintro rfl
      cases op <;> cases hposts
    refine ⟨c, fun c' hc' => ?_⟩
    obtain ⟨w, _, rfl⟩ | ⟨hspawns, _⟩ := hc'.of_running hpending hthreads
    · refine hpost hgoal (c.run 0 w (.post op .done)) op ?_ ?_
      · exact congrArg (· ++ [op]) hpending
      · exact congrArg (fun l => Code.resume l 0 .done) hthreads
    · cases hspawns
  | delete next ih =>
    subst hkind
    obtain ⟨_, _, rfl⟩ := hfollows
    refine ⟨c, fun c' hc' => ?_⟩
    obtain ⟨w, _, rfl⟩ | ⟨hspawns, _⟩ := hc'.of_running hpending hthreads
    · exact acc_idle hpending (congrArg (fun l => Code.resume l 0 .done) hthreads)
    · cases hspawns
  | abort =>
    subst hkind
    refine ⟨c, fun c' hc' => ?_⟩
    obtain ⟨w, haborts, _⟩ | ⟨hspawns, _⟩ := hc'.of_running hpending hthreads
    · cases haborts
    · cases hspawns

theorem acc_awaiting (hsrv : Disciplined srv phase) {c : Call I} {op : Op I c.kind}
    (hpending : c.pending = [op]) (hthreads : c.threads = []) : Acc (Shrinks srv phase) c := by
  refine ⟨c, fun c' hc' => ?_⟩
  obtain ⟨k, op', req, hop, rfl⟩ := hc'.of_awaiting hpending hthreads
  obtain ⟨rfl, rfl⟩ := getElem?_singleton_eq hop
  have hnone : c.pending.eraseIdx 0 = [] := by rw [hpending]; rfl
  have hthread (code : Code I c.kind) : c.threads ++ [code] = [code] := by rw [hthreads]; rfl
  cases op' <;> exact acc_running _ (fun h => by cases h) (fun h => absurd rfl h)
    (hsrv.fails _ _ _) _ rfl hnone (hthread _)

theorem acc_newCall (hsrv : Disciplined srv phase) (i : I.Kind) :
    Acc (Shrinks srv phase) (srv.newCall i) :=
  acc_running _ (fun h => by cases h)
    (fun _ _ _ hpending hthreads => acc_awaiting hsrv hpending hthreads)
    (hsrv.creates i _ _ (hsrv.fresh i)) _ rfl rfl rfl

theorem acc_sound (hsrv : Disciplined srv phase) {c : Call I} (h : Sound phase c) :
    Acc (Shrinks srv phase) c := by
  cases h with
  | running goal spawns code alive pending threads follows history =>
    exact acc_running code (fun _ => acc_newCall hsrv)
      (fun _ _ _ hpending hthreads => acc_awaiting hsrv hpending hthreads) follows c rfl pending
      threads
  | awaiting op alive pending threads waits => exact acc_awaiting hsrv pending threads
  | deleted alive pending threads history => exact acc_idle pending threads

theorem irrefl_shrinks (hsrv : Disciplined srv phase) : Std.Irrefl (Shrinks srv phase) := by
  refine ⟨fun c h => ?_⟩
  have hacc := acc_sound hsrv h.sound
  induction hacc with
  | intro c _ ih => exact ih c h h

/-- What happens after the queue is shut down: operations fail and threads run. -/
def Event.Drains : Event I → Bool
  | .complete _ _ ok _ => !ok
  | .run _ _ => true
  | .act _ => false

/-- A step replaces one object by smaller ones, unless it ends the process. -/
theorem cutExpand_of_step {s s' : Service I} {e : Event I} (hs : ∀ c ∈ s.calls, Sound phase c)
    (he : e.Drains = true) (h : srv.step e s = some s') (haborted : s'.aborted = false) :
    CutExpand (Shrinks srv phase) (s'.calls : Multiset (Call I)) (s.calls : Multiset (Call I)) := by
  obtain ⟨_, ⟨a, rfl, _⟩ | ⟨j, c, k, op, ok, req, rfl, hc, hop, rfl⟩ |
    ⟨j, c, t, code, _, hc, hcode, rfl⟩⟩ := Server.step_cases h
  · cases he
  · obtain rfl : ok = false := by simpa [Event.Drains] using he
    have hsound := hs c (List.mem_of_getElem? hc)
    refine ⟨{srv.complete c k false (req c.kind) op}, c, fun c' hc' => ?_, set_add_singleton _ hc⟩
    obtain rfl := Multiset.mem_singleton.mp hc'
    exact .complete c k op (req c.kind) hsound hop
  · have hsound := hs c (List.mem_of_getElem? hc)
    have hrun : Shrinks srv phase (c.run t s.world code) c :=
      .run c t s.world code hsound hcode haborted
    cases hspawns : code.spawns with
    | false =>
      refine ⟨{c.run t s.world code}, c, fun c' hc' => ?_, ?_⟩
      · obtain rfl := Multiset.mem_singleton.mp hc'
        exact hrun
      · have hcalls : (srv.exec s j c t code).calls = s.calls.set j (c.run t s.world code) := by
          simp [Server.exec, hspawns]
        rw [hcalls]
        exact set_add_singleton _ hc
    | true =>
      refine ⟨{c.run t s.world code, srv.newCall c.kind}, c, fun c' hc' => ?_, ?_⟩
      · rcases Multiset.mem_cons.mp hc' with rfl | hc'
        · exact hrun
        · obtain rfl := Multiset.mem_singleton.mp hc'
          exact .spawn c t code hsound hcode hspawns
      · have hcalls : (srv.exec s j c t code).calls =
            s.calls.set j (c.run t s.world code) ++ [srv.newCall c.kind] := by
          simp [Server.exec, hspawns]
        rw [hcalls, ← Multiset.coe_add, Multiset.coe_singleton, add_right_comm,
          set_add_singleton _ hc, add_assoc]
        rfl

/-- A step of a server that is shut down, whatever the rest of the process does to the world in
between. -/
def DrainStep (srv : Server I) (s' s : Service I) : Prop :=
  ∃ e w, e.Drains = true ∧ srv.step e { s with world := w } = some s'

variable {kinds : List I.Kind} {world : I.World} {s : Service I}

/-- A server that is shut down comes to rest. -/
theorem acc_drainStep (hsrv : Disciplined srv phase) (h : srv.Reaches kinds world s) :
    Acc (DrainStep srv) s := by
  have hirrefl := irrefl_shrinks hsrv
  have hsound := sound_of_reaches hsrv h
  have hacc : Acc (CutExpand (Shrinks srv phase)) (s.calls : Multiset (Call I)) :=
    Relation.acc_of_singleton fun c hc => (acc_sound hsrv (hsound c hc)).cutExpand
  clear h
  generalize hm : (s.calls : Multiset (Call I)) = m at hacc
  induction hacc generalizing s with
  | intro m _ ih =>
    subst hm
    refine ⟨s, fun s' hs' => ?_⟩
    obtain ⟨e, w, he, hstep⟩ := hs'
    cases haborted : s'.aborted with
    | true =>
      refine ⟨s', fun s'' hs'' => ?_⟩
      obtain ⟨e', w', _, hstep'⟩ := hs''
      have hgoes := (Server.step_cases hstep').1
      exact absurd (haborted.symm.trans hgoes) (by simp)
    | false =>
      have hsound' := Server.calls_step (s := { s with world := w }) (sound_newCall hsrv)
        (fun _ _ _ ok req hc hop => hc.complete hsrv hop ok req)
        (fun _ _ w _ hc hcode => hc.run hcode w) hsound hstep
      have hless := cutExpand_of_step (s := { s with world := w }) hsound he hstep haborted
      exact ih _ hless hsound' rfl

def Service.registry (s : Service I) : List (Call I) := s.calls.filter (·.alive)

/-- When nothing can happen any more and the process has not ended, the registry is empty. -/
theorem registry_of_rest (hsrv : Disciplined srv phase) (h : srv.Reaches kinds world s)
    (haborted : s.aborted = false) (hrest : ∀ s', ¬DrainStep srv s' s) : s.registry = [] := by
  refine List.filter_eq_nil_iff.mpr fun c hc halive => ?_
  have hone := (sound_of_reaches hsrv h c hc).alive_iff
  rw [if_pos halive] at hone
  obtain ⟨j, hj⟩ := List.mem_iff_getElem?.mp hc
  have hgoes (e : Event I) (he : e.Drains = true) : srv.happen s e = none := by
    have hstep : srv.step e s = srv.happen s e :=
      if_neg (by rw [haborted]; exact Bool.false_ne_true)
    by_contra hne
    obtain ⟨s', hs'⟩ := Option.ne_none_iff_exists'.mp hne
    exact hrest s' ⟨e, s.world, he, hstep.trans hs'⟩
  cases hpending : c.pending with
  | cons op ops =>
    have hnone := hgoes (.complete j 0 false srv.blank) rfl
    simp only [Server.happen, hj, Option.bind_some, hpending, List.getElem?_cons_zero,
      Option.map_some] at hnone
    cases hnone
  | nil =>
    cases hthreads : c.threads with
    | cons code codes =>
      have hnone := hgoes (.run j 0) rfl
      simp only [Server.happen, hj, Option.bind_some, hthreads, List.getElem?_cons_zero,
        Option.map_some] at hnone
      cases hnone
    | nil =>
      rw [hpending, hthreads] at hone
      cases hone

end Catena.Framework.Completion
