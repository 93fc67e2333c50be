import Catena.Framework.Handlers
import Catena.Framework.Replace
import Mathlib.Data.Prod.Lex
import Mathlib.Logic.Hydra

/-!
# Shutting down a server of threads

The count of the threads is right modulo 2^32. So the loop does not return before all threads have
ended, as long as there are not that many. After the shutdown the loop accepts at most one more
connection, and whatever the order of the steps, it returns.
-/

namespace Catena.Framework.Handlers

open Relation (CutExpand)

variable {W A O C : Type} {srv : Server W A O C} {s s' : State W A O C} {world : W}

/-! ## The count -/

def State.openThreads (s : State W A O C) : Nat := s.threads.countP Thread.isOpen

/-- A connection is counted before its thread is started. -/
def Main.counted : Main C → Nat
  | .start _ => 1
  | _ => 0

def State.Counted (s : State W A O C) : Prop :=
  s.active = UInt32.ofNat (s.openThreads + s.main.counted)

theorem isOpen_of_next {fails shutdown : Bool} {w : W} {t t' : Thread W A O C}
    (h : srv.next fails shutdown w t = some t') : t.isOpen = true ∧ t'.isOpen = !t.ends := by
  obtain ⟨hstage, rfl⟩ | ⟨hstage, rfl⟩ | ⟨a, rest, hstage, rfl⟩ | ⟨o, rest, hstage, rfl⟩ |
    ⟨hstage, rfl⟩ := Server.next_cases h <;> simp [Thread.isOpen, Thread.ends, hstage]

theorem counted_exec (h : s.Counted) {j : Nat} {fails : Bool} {t t' : Thread W A O C}
    (ht : s.threads[j]? = some t) (hnext : srv.next fails s.shutdown s.world t = some t') :
    (srv.exec s j t t').Counted := by
  obtain ⟨hopen, hopen'⟩ := isOpen_of_next hnext
  have hcount := countP_set (p := Thread.isOpen) t' ht
  rw [hopen, hopen', if_pos rfl] at hcount
  simp only [State.Counted, State.openThreads, Server.exec] at h ⊢
  cases hends : t.ends with
  | false =>
    rw [hends] at hcount
    have hsame : (s.threads.set j t').countP Thread.isOpen = s.threads.countP Thread.isOpen :=
      Nat.add_right_cancel hcount
    rw [if_neg Bool.false_ne_true, hsame]
    exact h
  | true =>
    rw [hends] at hcount
    have hless : s.threads.countP Thread.isOpen =
        (s.threads.set j t').countP Thread.isOpen + 1 := hcount.symm
    rw [if_pos rfl, h, hless, Nat.add_right_comm, UInt32.ofNat_add]
    exact UInt32.add_sub_cancel _ _

theorem counted_step {e : Event A C} (h : s.Counted) (hstep : srv.step e s = some s') :
    s'.Counted := by
  obtain ⟨_, ⟨conn, _, hloop⟩ | ⟨j, fails, t, t', _, ht, ht', rfl⟩ | ⟨_, rfl⟩ | ⟨a, _, rfl⟩⟩ :=
    Server.step_cases hstep
  · simp only [State.Counted, State.openThreads] at h ⊢
    obtain ⟨hmain, rfl⟩ | ⟨hmain, rfl⟩ | ⟨conn', hmain, rfl⟩ | ⟨conn', hmain, rfl⟩ |
      ⟨hmain, _, rfl⟩ := Server.loop_cases hloop
    · rw [hmain] at h
      cases s.shutdown <;> exact h
    · rw [hmain] at h
      exact h
    · rw [hmain] at h
      change s.active + 1 = _
      rw [h]
      exact (UInt32.ofNat_add _ 1).symm
    · rw [hmain] at h
      rw [List.countP_append]
      exact h
    · rw [hmain] at h
      exact h
  · exact counted_exec h ht ht'
  · exact h
  · exact h

theorem counted_of_reaches (h : srv.Reaches world s) : s.Counted :=
  Server.reaches_invariant (P := State.Counted) rfl (fun _ _ _ hs hstep => counted_step hs hstep) h

/-! ## The end of the loop -/

/-- A connection is refused, and the loop waits, only after the shutdown. -/
structure State.Down (s : State W A O C) : Prop where
  refused : ∀ t ∈ s.threads, t.refused = true → s.shutdown = true
  waits : s.main = .wait ∨ s.main = .returned → s.shutdown = true

theorem refused_of_next {fails shutdown : Bool} {w : W} {t t' : Thread W A O C}
    (h : srv.next fails shutdown w t = some t') (hrefused : t'.refused = true) :
    t.refused = true ∨ shutdown = true := by
  obtain ⟨_, rfl⟩ | ⟨_, rfl⟩ | ⟨a, rest, _, rfl⟩ | ⟨o, rest, _, rfl⟩ | ⟨_, rfl⟩ :=
    Server.next_cases h
  · exact Or.inr hrefused
  · exact Or.inl hrefused
  · exact Or.inl hrefused
  · exact Or.inl hrefused
  · exact Or.inl hrefused

theorem down_step {e : Event A C} (h : s.Down) (hstep : srv.step e s = some s') : s'.Down := by
  obtain ⟨_, ⟨conn, _, hloop⟩ | ⟨j, fails, t, t', _, ht, ht', rfl⟩ | ⟨_, rfl⟩ | ⟨a, _, rfl⟩⟩ :=
    Server.step_cases hstep
  · obtain ⟨hmain, rfl⟩ | ⟨hmain, rfl⟩ | ⟨conn', hmain, rfl⟩ | ⟨conn', hmain, rfl⟩ |
      ⟨hmain, _, rfl⟩ := Server.loop_cases hloop
    · refine ⟨h.refused, fun hwaits => ?_⟩
      cases hdown : s.shutdown with
      | true => rfl
      | false =>
        rw [hdown] at hwaits
        rcases hwaits with hwaits | hwaits <;> cases hwaits
    · exact ⟨h.refused, fun hwaits => by rcases hwaits with hwaits | hwaits <;> cases hwaits⟩
    · exact ⟨h.refused, fun hwaits => by rcases hwaits with hwaits | hwaits <;> cases hwaits⟩
    · refine ⟨fun t ht hrefused => ?_, fun hwaits => by
        rcases hwaits with hwaits | hwaits <;> cases hwaits⟩
      rcases List.mem_append.mp ht with ht | ht
      · exact h.refused t ht hrefused
      · obtain rfl := List.mem_singleton.mp ht
        cases hrefused
    · exact ⟨h.refused, fun _ => h.waits (Or.inl hmain)⟩
  · refine ⟨fun t'' ht'' hrefused => ?_, h.waits⟩
    rcases List.mem_or_eq_of_mem_set ht'' with hold | rfl
    · exact h.refused t'' hold hrefused
    · exact (refused_of_next ht' hrefused).elim (h.refused t (List.mem_of_getElem? ht)) id
  · exact ⟨fun _ _ _ => rfl, fun _ => rfl⟩
  · exact ⟨h.refused, h.waits⟩

theorem down_of_reaches (h : srv.Reaches world s) : s.Down := by
  refine Server.reaches_invariant (P := State.Down) ?_ (fun _ _ _ hs hstep => down_step hs hstep) h
  refine ⟨fun t ht => (by cases ht), fun hwaits => ?_⟩
  rcases hwaits with hwaits | hwaits <;> cases hwaits

theorem ended_of_openThreads (h : s.openThreads = 0) : ∀ t ∈ s.threads, t.stage = .ended := by
  intro t ht
  have hclosed := List.countP_eq_zero.mp h t ht
  cases hstage : t.stage with
  | ended => rfl
  | accepted => simp [Thread.isOpen, hstage] at hclosed
  | running code => simp [Thread.isOpen, hstage] at hclosed

theorem openThreads_of_active (h : s.Counted) (hactive : s.active = 0)
    (hlength : s.threads.length < 2 ^ 32) (hmain : s.main.counted = 0) : s.openThreads = 0 := by
  have hle : s.openThreads ≤ s.threads.length := List.countP_le_length
  have hzero : UInt32.ofNat s.openThreads = 0 := by
    rw [State.Counted, hmain, Nat.add_zero] at h
    exact h.symm.trans hactive
  have hmod := congrArg UInt32.toNat hzero
  rw [UInt32.toNat_ofNat_of_lt' (by simpa using Nat.lt_of_le_of_lt hle hlength)] at hmod
  exact hmod

/-- The loop returns after the shutdown, when all threads have ended. -/
theorem ended_of_returned (h : srv.Reaches world s) (hreturned : s.main = .returned)
    (hlength : s.threads.length < 2 ^ 32) : ∀ t ∈ s.threads, t.stage = .ended := by
  have hboth : s.Counted ∧ (s.main = .returned → s.threads.length < 2 ^ 32 →
      ∀ t ∈ s.threads, t.stage = .ended) := by
    refine Server.reaches_invariant (P := fun s : State W A O C => s.Counted ∧
      (s.main = .returned → s.threads.length < 2 ^ 32 → ∀ t ∈ s.threads, t.stage = .ended))
      ⟨rfl, fun h => by cases h⟩ ?_ h
    intro e s s' hs hstep
    refine ⟨counted_step hs.1 hstep, fun hreturned hlength => ?_⟩
    obtain ⟨_, ⟨conn, _, hloop⟩ | ⟨j, fails, t, t', _, ht, ht', rfl⟩ | ⟨_, rfl⟩ | ⟨a, _, rfl⟩⟩ :=
      Server.step_cases hstep
    · obtain ⟨_, rfl⟩ | ⟨_, rfl⟩ | ⟨conn', _, rfl⟩ | ⟨conn', _, rfl⟩ | ⟨hmain, hactive, rfl⟩ :=
        Server.loop_cases hloop
      · cases hdown : s.shutdown <;> simp [hdown] at hreturned
      · cases hreturned
      · cases hreturned
      · cases hreturned
      · have hcounted : s.main.counted = 0 := by rw [hmain]; rfl
        have hopen : s.openThreads = 0 := openThreads_of_active hs.1 hactive hlength hcounted
        exact ended_of_openThreads hopen
    · -- a thread that has ended takes no step
      have hlength' : s.threads.length < 2 ^ 32 := by
        have hsame : (s.threads.set j t').length = s.threads.length := List.length_set
        rw [← hsame]
        exact hlength
      have hended := hs.2 hreturned hlength' t (List.mem_of_getElem? ht)
      simp only [Server.next, hended] at ht'
      cases ht'
    · exact hs.2 hreturned hlength
    · exact hs.2 hreturned hlength
  exact hboth.2 hreturned hlength

/-! ## Coming to rest -/

def Less (srv : Server W A O C) (t' t : Thread W A O C) : Prop :=
  t.aborts = false ∧ ∃ fails shutdown w, srv.next fails shutdown w t = some t'

/-- The induction is on the code that is still to run. -/
theorem acc_running (code : Code W A O) {t : Thread W A O C} (hstage : t.stage = .running code) :
    Acc (Less srv) t := by
  induction code generalizing t with
  | done =>
    refine ⟨t, fun t' ht' => ?_⟩
    obtain ⟨_, fails, shutdown, w, hnext⟩ := ht'
    simp only [Server.next, hstage] at hnext
    obtain rfl := Option.some.inj hnext
    refine ⟨_, fun t'' ht'' => ?_⟩
    obtain ⟨_, fails', shutdown', w', hnext'⟩ := ht''
    cases hnext'
  | locked a next ih =>
    refine ⟨t, fun t' ht' => ?_⟩
    obtain ⟨_, fails, shutdown, w, hnext⟩ := ht'
    simp only [Server.next, hstage] at hnext
    obtain rfl := Option.some.inj hnext
    exact ih w rfl
  | write o next ih =>
    refine ⟨t, fun t' ht' => ?_⟩
    obtain ⟨_, fails, shutdown, w, hnext⟩ := ht'
    simp only [Server.next, hstage] at hnext
    obtain rfl := Option.some.inj hnext
    exact ih rfl
  | abort =>
    refine ⟨t, fun t' ht' => ?_⟩
    simp [Less, Thread.aborts, hstage] at ht'

theorem wellFounded_less : WellFounded (Less srv) := by
  refine ⟨fun t => ?_⟩
  cases hstage : t.stage with
  | accepted =>
    refine ⟨t, fun t' ht' => ?_⟩
    obtain ⟨_, fails, shutdown, w, hnext⟩ := ht'
    simp only [Server.next, hstage] at hnext
    obtain rfl := Option.some.inj hnext
    exact acc_running _ rfl
  | running code => exact acc_running code hstage
  | ended =>
    refine ⟨t, fun t' ht' => ?_⟩
    obtain ⟨_, fails, shutdown, w, hnext⟩ := ht'
    simp only [Server.next, hstage] at hnext
    cases hnext

/-- How many steps the loop has still to take after the shutdown. -/
def Main.rank : Main C → Nat
  | .accept => 5
  | .count _ => 4
  | .start _ => 3
  | .test => 2
  | .wait => 1
  | .returned => 0

def Event.Drains : Event A C → Bool
  | .main _ | .run _ _ => true
  | .shutDown | .act _ => false

/-- A step after the shutdown, whatever the rest of the process does to the world in between. -/
def DrainStep (srv : Server W A O C) (s' s : State W A O C) : Prop :=
  s.shutdown = true ∧ ∃ e w, e.Drains = true ∧ srv.step e { s with world := w } = some s'

/-- The loop gets closer to its end, or a thread does, unless the process ends. -/
theorem lex_of_drainStep (h : DrainStep srv s' s) (haborted : s'.aborted = false) :
    Prod.Lex (· < ·) (CutExpand (Less srv)) (s'.main.rank, (s'.threads : Multiset (Thread W A O C)))
      (s.main.rank, (s.threads : Multiset (Thread W A O C))) := by
  obtain ⟨hdown, e, w, he, hstep⟩ := h
  obtain ⟨_, ⟨conn, _, hloop⟩ | ⟨j, fails, t, t', _, ht, ht', rfl⟩ | ⟨rfl, _⟩ | ⟨a, rfl, _⟩⟩ :=
    Server.step_cases hstep
  · refine .left _ _ ?_
    obtain ⟨hmain, rfl⟩ | ⟨hmain, rfl⟩ | ⟨conn', hmain, rfl⟩ | ⟨conn', hmain, rfl⟩ |
      ⟨hmain, _, rfl⟩ := Server.loop_cases hloop
    · change s.main = _ at hmain
      simp [hmain, hdown, Main.rank]
    · change s.main = _ at hmain
      simp [hmain, Main.rank]
    · change s.main = _ at hmain
      simp [hmain, Main.rank]
    · change s.main = _ at hmain
      simp [hmain, Main.rank]
    · change s.main = _ at hmain
      simp [hmain, Main.rank]
  · refine .right _ ⟨{t'}, t, fun t'' ht'' => ?_, set_add_singleton _ ht⟩
    obtain rfl := Multiset.mem_singleton.mp ht''
    exact ⟨haborted, fails, s.shutdown, w, ht'⟩
  · cases he
  · cases he

theorem acc_drainStep (s : State W A O C) : Acc (DrainStep srv) s := by
  have hwf : WellFounded (Prod.Lex (· < ·) (CutExpand (Less srv)) :
      Nat × Multiset (Thread W A O C) → Nat × Multiset (Thread W A O C) → Prop) :=
    WellFounded.prod_lex Nat.lt_wfRel.wf wellFounded_less.cutExpand
  generalize hm : (s.main.rank, (s.threads : Multiset (Thread W A O C))) = m
  induction m using hwf.induction generalizing s with
  | h m ih =>
    subst hm
    refine ⟨s, fun s' hs' => ?_⟩
    cases haborted : s'.aborted with
    | true =>
      refine ⟨s', fun s'' hs'' => ?_⟩
      obtain ⟨_, e, w, _, hstep⟩ := hs''
      exact absurd (haborted.symm.trans (Server.step_cases hstep).1) (by simp)
    | false => exact ih _ (lex_of_drainStep hs' haborted) s' rfl

/-- When nothing can happen any more and the process has not been aborted, the loop has returned
and all threads have ended. -/
theorem returned_of_rest (h : srv.Reaches world s) (hdown : s.shutdown = true)
    (haborted : s.aborted = false) (conn : C) (hrest : ∀ s', ¬DrainStep srv s' s) :
    s.main = .returned ∧ ∀ t ∈ s.threads, t.stage = .ended := by
  have hgoes (e : Event A C) (he : e.Drains = true) : srv.happen s e = none := by
    have hstep : srv.step e s = srv.happen s e := if_neg (by simp [haborted])
    by_contra hne
    obtain ⟨s', hs'⟩ := Option.ne_none_iff_exists'.mp hne
    exact hrest s' ⟨hdown, e, s.world, he, hstep.trans hs'⟩
  have hended : ∀ t ∈ s.threads, t.stage = .ended := by
    intro t ht
    obtain ⟨j, hj⟩ := List.mem_iff_getElem?.mp ht
    have hnone := hgoes (.run j false) rfl
    simp only [Server.happen, hj, Option.bind_some, Option.map_eq_none_iff] at hnone
    cases hstage : t.stage with
    | ended => rfl
    | accepted => simp [Server.next, hstage] at hnone
    | running code => cases code <;> simp [Server.next, hstage] at hnone
  refine ⟨?_, hended⟩
  have hopen : s.openThreads = 0 := by
    refine List.countP_eq_zero.mpr fun t ht => ?_
    simp [Thread.isOpen, hended t ht]
  have hnone : Server.loop s conn = none := hgoes (.main conn) rfl
  cases hmain : s.main with
  | returned => rfl
  | wait =>
    have hactive : s.active = 0 := by
      rw [counted_of_reaches h, hopen, hmain]
      rfl
    simp [Server.loop, hmain, hactive] at hnone
  | test => simp [Server.loop, hmain] at hnone
  | accept => simp [Server.loop, hmain] at hnone
  | count conn' => simp [Server.loop, hmain] at hnone
  | start conn' => simp [Server.loop, hmain] at hnone

end Catena.Framework.Handlers
