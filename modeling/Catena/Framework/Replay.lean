import Mathlib.Data.List.Perm.Basic

/-!
# Replaying operations in another order

A list of operations is replayed one after the other on a state. Operations that are ready in
the state they start from, that keep one another ready and that commute unless they have the
same key can be replayed in every order that keeps the order of equal keys. An operation that
a later one makes void can be left out. What every operation preserves holds at the end.
-/

namespace Catena.Framework

variable {ι σ κ : Type}

theorem exists_last {P : ι → Prop} {as : List ι} (h : ∃ a ∈ as, P a) :
    ∃ before a after, as = before ++ a :: after ∧ P a ∧ ∀ x ∈ after, ¬P x := by
  induction as with
  | nil => simp at h
  | cons b bs ih =>
    by_cases hrest : ∃ a ∈ bs, P a
    · obtain ⟨before, a, after, rfl, ha, hafter⟩ := ih hrest
      exact ⟨b :: before, a, after, rfl, ha, hafter⟩
    · obtain ⟨a, ha, hPa⟩ := h
      have hab : a = b := (List.mem_cons.mp ha).resolve_right fun ha => hrest ⟨a, ha, hPa⟩
      exact ⟨[], b, bs, rfl, hab ▸ hPa, fun x hx hPx => hrest ⟨x, hx, hPx⟩⟩

theorem exists_of_guarded {α : Type} {o : Option α} {p : α → Prop} [DecidablePred p] {f : α → σ}
    {s : σ} (h : (o.bind fun a => if p a then some (f a) else none) = some s) :
    ∃ a, o = some a ∧ p a ∧ f a = s := by
  obtain ⟨a, ha, hrest⟩ := Option.bind_eq_some_iff.mp h
  obtain ⟨hp, hs⟩ := Option.ite_none_right_eq_some.mp hrest
  exact ⟨a, ha, hp, Option.some.inj hs⟩

def replay (step : ι → σ → Option σ) : List ι → σ → Option σ
  | [], s => some s
  | a :: as, s => (step a s).bind (replay step as)

theorem replay_cons_some {step : ι → σ → Option σ} {a : ι} {s s' : σ} (h : step a s = some s')
    (as : List ι) : replay step (a :: as) s = replay step as s' := by
  simp only [replay, h, Option.bind_some]

theorem replay_append (step : ι → σ → Option σ) (as bs : List ι) (s : σ) :
    replay step (as ++ bs) s = (replay step as s).bind (replay step bs) := by
  induction as generalizing s with
  | nil => rfl
  | cons a as ih =>
    simp only [List.cons_append, replay]
    cases step a s with
    | none => rfl
    | some s₁ => exact ih s₁

theorem replay_invariant {step : ι → σ → Option σ} {Inv : σ → Prop}
    (hstep : ∀ a s s', Inv s → step a s = some s' → Inv s') {as : List ι} {s s' : σ} (hs : Inv s)
    (h : replay step as s = some s') : Inv s' := by
  induction as generalizing s with
  | nil =>
    obtain rfl := Option.some.inj h
    exact hs
  | cons a as ih =>
    obtain ⟨s₁, hs₁, hrest⟩ := Option.bind_eq_some_iff.mp h
    exact ih (hstep a s s₁ hs hs₁) hrest

def AllSteps (step : ι → σ → Option σ) (P : ι → σ → Prop) : List ι → σ → Prop
  | [], _ => True
  | a :: as, s => P a s ∧ ∀ s', step a s = some s' → AllSteps step P as s'

theorem AllSteps.cons {step : ι → σ → Option σ} {P : ι → σ → Prop} {a : ι} {as : List ι} {s s' : σ}
    (h : P a s) (hstep : step a s = some s') (hrest : AllSteps step P as s') :
    AllSteps step P (a :: as) s := by
  refine ⟨h, fun s₁ hs₁ => ?_⟩
  obtain rfl := Option.some.inj (hstep.symm.trans hs₁)
  exact hrest

theorem allSteps_of_forall {P : ι → Prop} {as : List ι} (h : ∀ a ∈ as, P a)
    (step : ι → σ → Option σ) (s : σ) : AllSteps step (fun a _ => P a) as s := by
  induction as generalizing s with
  | nil => exact trivial
  | cons a as ih =>
    have hrest : ∀ x ∈ as, P x := fun x hx => h x (List.mem_cons_of_mem a hx)
    exact ⟨h a List.mem_cons_self, fun s' _ => ih hrest s'⟩

theorem replay_invariant_of {step : ι → σ → Option σ} {P : ι → σ → Prop} {Inv : σ → Prop}
    (hstep : ∀ a s s', Inv s → P a s → step a s = some s' → Inv s') {as : List ι} {s s' : σ}
    (hs : Inv s) (hall : AllSteps step P as s) (h : replay step as s = some s') : Inv s' := by
  induction as generalizing s with
  | nil =>
    obtain rfl := Option.some.inj h
    exact hs
  | cons a as ih =>
    obtain ⟨s₁, hs₁, hrest⟩ := Option.bind_eq_some_iff.mp h
    exact ih (hstep a s s₁ hs hall.1 hs₁) (hall.2 s₁ hs₁) hrest

theorem replay_of_not_allSteps {step : ι → σ → Option σ} {P : ι → σ → Prop} {Inv Bad : σ → Prop}
    (hinv : ∀ a s s', Inv s → step a s = some s' → Inv s')
    (hbad : ∀ a s s', Inv s → ¬P a s → step a s = some s' → Bad s')
    (hkeep : ∀ a s s', Inv s ∧ Bad s → step a s = some s' → Bad s') {as : List ι} {s s' : σ}
    (hs : Inv s) (hall : ¬AllSteps step P as s) (h : replay step as s = some s') : Bad s' := by
  induction as generalizing s with
  | nil => exact absurd trivial hall
  | cons a as ih =>
    obtain ⟨s₁, hs₁, hrest⟩ := Option.bind_eq_some_iff.mp h
    have hinv₁ := hinv a s s₁ hs hs₁
    by_cases hP : P a s
    · refine ih hinv₁ (fun hrun => hall ⟨hP, fun s₂ hs₂ => ?_⟩) hrest
      obtain rfl := Option.some.inj (hs₁.symm.trans hs₂)
      exact hrun
    · have hboth : ∀ a s s', Inv s ∧ Bad s → step a s = some s' → Inv s' ∧ Bad s' :=
        fun a s s' hs h => ⟨hinv a s s' hs.1 h, hkeep a s s' hs h⟩
      exact (replay_invariant hboth ⟨hinv₁, hbad a s s₁ hs hP hs₁⟩ hrest).2

/-- Operations, some of which are ready in a state. -/
structure Operations (ι σ : Type) where
  step : ι → σ → Option σ
  Ready : ι → σ → Prop
  enabled : ∀ a s, Ready a s → ∃ s', step a s = some s'

namespace Operations

variable (ops : Operations ι σ)

/-- The first operation does not take the readiness of the second away. -/
def Safe (a b : ι) : Prop :=
  ∀ s s', ops.Ready a s → ops.Ready b s → ops.step a s = some s' → ops.Ready b s'

/-- The operations give the same state in either order. -/
def Commutes (a b : ι) : Prop := ∀ s, ops.Ready a s → ops.Ready b s →
  (ops.step a s).bind (ops.step b) = (ops.step b s).bind (ops.step a)

/-- The first operation makes the second void if it comes right after it. -/
def Voids (a b : ι) : Prop := ∀ s, ops.Ready a s → ops.Ready b s →
  (ops.step b s).bind (ops.step a) = ops.step a s

variable {ops} in
theorem Commutes.symm {a b : ι} (h : ops.Commutes a b) : ops.Commutes b a :=
  fun s hb ha => (h s ha hb).symm

/-- All operations of a list are ready, and they keep one another ready. -/
structure AllReady (as : List ι) (s : σ) : Prop where
  ready : ∀ a ∈ as, ops.Ready a s
  safe : ∀ a ∈ as, ∀ b ∈ as, ops.Safe a b

variable {ops}

theorem AllReady.subset {as : List ι} (bs : List ι) {s : σ} (h : ops.AllReady as s)
    (hsub : ∀ b ∈ bs, b ∈ as) : ops.AllReady bs s :=
  ⟨fun b hb => h.ready b (hsub b hb), fun a ha b hb => h.safe a (hsub a ha) b (hsub b hb)⟩

theorem AllReady.step {as : List ι} {a : ι} {s s' : σ} (h : ops.AllReady as s) (ha : a ∈ as)
    (hstep : ops.step a s = some s') : ops.AllReady as s' :=
  ⟨fun b hb => h.safe a ha b hb s s' (h.ready a ha) (h.ready b hb) hstep, h.safe⟩

theorem AllReady.exists_replay {as : List ι} (bs : List ι) {s : σ} (h : ops.AllReady as s)
    (hsub : ∀ b ∈ bs, b ∈ as) :
    ∃ s', replay ops.step bs s = some s' ∧ ops.AllReady as s' := by
  induction bs generalizing s with
  | nil => exact ⟨s, rfl, h⟩
  | cons b bs ih =>
    obtain ⟨s₁, hs₁⟩ := ops.enabled b s (h.ready b (hsub b (by simp)))
    obtain ⟨s', hs', hafter⟩ :=
      ih (h.step (hsub b (by simp)) hs₁) fun x hx => hsub x (by simp [hx])
    exact ⟨s', (replay_cons_some hs₁ bs).trans hs', hafter⟩

theorem replay_move {a : ι} {bs : List ι} (cs : List ι) {s : σ} (h : ops.AllReady (a :: bs) s)
    (hcomm : ∀ b ∈ bs, ops.Commutes a b) :
    replay ops.step (a :: (bs ++ cs)) s = replay ops.step (bs ++ a :: cs) s := by
  induction bs generalizing s with
  | nil => rfl
  | cons b bs ih =>
    have hra := h.ready a (by simp)
    have hrb := h.ready b (by simp)
    obtain ⟨s₁, hs₁⟩ := ops.enabled b s hrb
    have h₁ : ops.AllReady (a :: bs) s₁ := (h.step (by simp) hs₁).subset _ (by simp +contextual)
    calc replay ops.step (a :: (b :: bs ++ cs)) s
        = ((ops.step a s).bind (ops.step b)).bind (replay ops.step (bs ++ cs)) := by
          simp only [replay, List.cons_append, Option.bind_assoc]
      _ = ((ops.step b s).bind (ops.step a)).bind (replay ops.step (bs ++ cs)) := by
          rw [hcomm b (by simp) s hra hrb]
      _ = replay ops.step (a :: (bs ++ cs)) s₁ := by
          simp only [hs₁, Option.bind_some, replay]
      _ = replay ops.step (bs ++ a :: cs) s₁ := ih h₁ fun x hx => hcomm x (by simp [hx])
      _ = replay ops.step (b :: bs ++ a :: cs) s := by
          simp only [replay, List.cons_append, hs₁, Option.bind_some]

def SameKey (key : ι → Option κ) (a b : ι) : Prop := key a ≠ none ∧ key a = key b

/-- Every order that keeps the order of equal keys gives the same state. -/
theorem replay_perm [DecidableEq κ] (key : ι → Option κ) {as bs : List ι} {s : σ}
    (hperm : as.Perm bs) (hkey : ∀ k, as.filter (key · = some k) = bs.filter (key · = some k))
    (h : ops.AllReady bs s)
    (hcomm : ∀ a ∈ bs, ∀ b ∈ bs, SameKey key a b ∨ ops.Commutes a b) :
    replay ops.step as s = replay ops.step bs s := by
  induction as generalizing bs s with
  | nil => rw [hperm.nil_eq]
  | cons a as ih =>
    -- the first of `bs` that can be `a`: nothing before it has the same key
    obtain ⟨before, after, hbs, hne⟩ : ∃ before after, bs = before ++ a :: after ∧
        ∀ x ∈ before, ¬SameKey key a x := by
      cases hk : key a with
      | none =>
        obtain ⟨before, after, hbs⟩ := List.append_of_mem (hperm.subset (List.mem_cons_self (a := a)))
        exact ⟨before, after, hbs, fun _ _ hsame => hsame.1 hk⟩
      | some k =>
        have hcons := hkey k
        rw [List.filter_cons, if_pos (by simp [hk])] at hcons
        obtain ⟨before, after, hbs, hfree, _, _⟩ := List.filter_eq_cons_iff.mp hcons.symm
        refine ⟨before, after, hbs, fun x hx hsame => hfree x hx ?_⟩
        simp [← hsame.2, hk]
    subst hbs
    have hmove := replay_move after (h.subset (a :: before) (by simp +contextual))
      fun x hx => (hcomm a (by simp) x (by simp [hx])).resolve_left (hne x hx)
    obtain ⟨s₁, hs₁⟩ := ops.enabled a s (h.ready a (by simp))
    rw [← hmove, replay_cons_some hs₁, replay_cons_some hs₁]
    have hsub : ∀ x ∈ before ++ after, x ∈ before ++ a :: after := fun x hx => by
      rcases List.mem_append.mp hx with hx | hx <;> simp [hx]
    refine ih ?_ (fun k => ?_) ((h.step (by simp) hs₁).subset _ hsub)
      fun x hx y hy => hcomm x (hsub x hx) y (hsub y hy)
    · exact (List.perm_cons a).mp (hperm.trans List.perm_middle)
    · have hk := hkey k
      by_cases ha : key a = some k
      · have hfree : before.filter (key · = some k) = [] :=
          List.filter_eq_nil_iff.mpr fun x hx hx' => hne x hx
            ⟨by simp [ha], ha.trans (of_decide_eq_true hx').symm⟩
        simpa [List.filter_append, List.filter_cons, ha, hfree] using hk
      · simpa [List.filter_append, List.filter_cons, ha] using hk

section Prune

variable (Covers : ι → ι → Prop) [DecidableRel Covers]

/-- Leave out the operations that a later one covers. -/
def prune : List ι → List ι
  | [] => []
  | a :: as => if ∃ p ∈ as, Covers p a then prune as else a :: prune as

theorem prune_sublist (as : List ι) : (prune Covers as).Sublist as := by
  induction as with
  | nil => exact List.Sublist.slnil
  | cons a as ih =>
    simp only [prune]
    split
    · exact ih.cons a
    · exact ih.cons_cons a

theorem mem_prune {as : List ι} {p : ι} (hp : p ∈ as) (hfree : ∀ q, ¬Covers q p) :
    p ∈ prune Covers as := by
  induction as with
  | nil => cases hp
  | cons a as ih =>
    simp only [prune]
    rcases List.mem_cons.mp hp with rfl | hp
    · rw [if_neg (fun ⟨q, _, hc⟩ => hfree q hc)]
      simp
    · split
      · exact ih hp
      · exact List.mem_cons_of_mem a (ih hp)

/-- An operation that occurs only before one that covers it is left out. -/
theorem not_mem_prune {before after : List ι} {p a : ι} (hp : Covers p a)
    (ha : a ∉ p :: after) : a ∉ prune Covers (before ++ p :: after) := by
  induction before with
  | nil => exact fun hmem => ha ((prune_sublist Covers _).subset hmem)
  | cons b before ih =>
    simp only [List.cons_append, prune]
    split
    · exact ih
    · rename_i hfree
      refine fun hmem => (List.mem_cons.mp hmem).elim (fun hab => hfree ⟨p, by simp, ?_⟩) ih
      exact hab ▸ hp

theorem pairwise_prune (as : List ι) : (prune Covers as).Pairwise fun a b => ¬Covers b a := by
  induction as with
  | nil => exact List.Pairwise.nil
  | cons a as ih =>
    simp only [prune]
    split
    · exact ih
    · rename_i hfree
      refine List.pairwise_cons.mpr ⟨fun b hb hc => hfree ⟨b, ?_, hc⟩, ih⟩
      exact (prune_sublist Covers as).subset hb

variable {Covers} in
/-- Covered operations can be left out: each is moved on to the first operation that covers
it, which makes it void. -/
theorem replay_prune (key : ι → Option κ) {as : List ι} {s : σ} (h : ops.AllReady as s)
    (hvoids : ∀ p a, Covers p a → ops.Voids p a) (hlast : ∀ p a q, Covers p a → ¬Covers q p)
    (hkey : ∀ p a b, Covers p a → SameKey key a b → Covers p b)
    (hcomm : ∀ p a b, Covers p a → Covers b a ∨ SameKey key a b ∨ ops.Commutes a b) :
    replay ops.step as s = replay ops.step (prune Covers as) s := by
  induction as generalizing s with
  | nil => rfl
  | cons a as ih =>
    obtain ⟨s₁, hs₁⟩ := ops.enabled a s (h.ready a (by simp))
    have hrest := ih ((h.step (by simp) hs₁).subset as fun x hx => List.mem_cons_of_mem a hx)
    rw [replay_cons_some hs₁, hrest]
    simp only [prune]
    split
    · rename_i hcovered
      obtain ⟨p, hp, hpa⟩ := hcovered
      -- split what is left at the first operation that covers `a`
      have hfirst : ∃ q ∈ prune Covers as, Covers q a :=
        ⟨p, mem_prune Covers hp fun q => hlast p a q hpa, hpa⟩
      obtain ⟨before, q, after, hsplit, hqa, hfree⟩ : ∃ before q after,
          prune Covers as = before ++ q :: after ∧ Covers q a ∧ ∀ b ∈ before, ¬Covers b a := by
        have hfind := List.find?_isSome.mpr
          (show ∃ x ∈ prune Covers as, decide (Covers x a) = true by simpa using hfirst)
        obtain ⟨q, hq⟩ := Option.isSome_iff_exists.mp hfind
        obtain ⟨hqa, before, after, hsplit, hfree⟩ := List.find?_eq_some_iff_append.mp hq
        exact ⟨before, q, after, hsplit, by simpa using hqa, fun b hb => by simpa using hfree b hb⟩
      have hin : ∀ x ∈ before ++ q :: after, x ∈ as := fun x hx =>
        (prune_sublist Covers as).subset (hsplit ▸ hx)
      have hpair := pairwise_prune Covers as
      rw [hsplit] at hpair ⊢
      have hmoves : ∀ b ∈ before, ops.Commutes a b := by
        intro b hb
        obtain hc | hsame | hc := hcomm q a b hqa
        · exact absurd hc (hfree b hb)
        · exact absurd (hkey q a b hqa hsame)
            ((List.pairwise_append.mp hpair).2.2 b hb q (by simp))
        · exact hc
      have hall : ops.AllReady (a :: (before ++ q :: after)) s := h.subset _ fun x hx => by
        rcases List.mem_cons.mp hx with rfl | hx
        · simp
        · exact List.mem_cons_of_mem a (hin x hx)
      rw [← replay_cons_some hs₁,
        replay_move (q :: after) (hall.subset _ (by simp +contextual)) hmoves,
        replay_append, replay_append]
      obtain ⟨s₂, hs₂, hready⟩ := hall.exists_replay before (by simp +contextual)
      have hvoid := hvoids q a hqa s₂ (hready.ready q (by simp)) (hready.ready a (by simp))
      simp only [hs₂, Option.bind_some, replay, ← hvoid, Option.bind_assoc]
    · exact (replay_cons_some hs₁ _).symm

end Prune

end Operations

end Catena.Framework
