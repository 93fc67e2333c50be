import Mathlib.Data.List.Basic

/-!
# Partial actions on a state

An action reads and rewrites a state and may fail. Two actions commute when running them in
either order succeeds on the same states with the same answers and the same final state.
-/

namespace Catena.Framework

/-- An action on `σ` with an answer in `α`. -/
abbrev Action (σ α : Type) : Type := σ → Option (α × σ)

namespace Action

variable {σ α β γ : Type}

def map (f : α → β) (m : Action σ α) : Action σ β := fun s => (m s).map fun r => (f r.1, r.2)

def bind (m : Action σ α) (k : α → Action σ β) : Action σ β := fun s =>
  (m s).bind fun r => k r.1 r.2

/-- One action after the other, with both answers. -/
def both (m : Action σ α) (n : Action σ β) : Action σ (α × β) :=
  m.bind fun x => n.map fun y => (x, y)

def Commute (m : Action σ α) (n : Action σ β) : Prop := m.both n = (n.both m).map Prod.swap

theorem both_apply_eq_some {m : Action σ α} {n : Action σ β} {s s' : σ} {x : α} {y : β} :
    m.both n s = some ((x, y), s') ↔ ∃ s₁, m s = some (x, s₁) ∧ n s₁ = some (y, s') := by
  constructor
  · intro h
    obtain ⟨⟨x₁, s₁⟩, hm, hn⟩ := Option.bind_eq_some_iff.mp h
    obtain ⟨⟨y₁, s₂⟩, hy, he⟩ := Option.map_eq_some_iff.mp hn
    simp only [Prod.mk.injEq] at he
    obtain ⟨⟨rfl, rfl⟩, rfl⟩ := he
    exact ⟨s₁, hm, hy⟩
  · rintro ⟨s₁, hm, hn⟩
    simp [both, bind, map, hm, hn]

theorem Commute.symm {m : Action σ α} {n : Action σ β} (h : m.Commute n) : n.Commute m := by
  funext s
  have hs := congrFun h s
  simp only [map] at hs ⊢
  rw [hs, Option.map_map]
  simp [Function.comp_def]

theorem commute_of_fails {m : Action σ α} (n : Action σ β) (hm : ∀ s, m s = none) :
    m.Commute n := by
  funext s
  cases hn : n s with
  | none => simp [both, bind, map, hm, hn]
  | some r => simp [both, bind, map, hm, hn]

theorem commute_of_reads {m : Action σ α} {n : Action σ β} (hm : ∀ s r, m s = some r → r.2 = s)
    (hn : ∀ s r, n s = some r → r.2 = s) : m.Commute n := by
  funext s
  cases hms : m s with
  | none =>
    cases hns : n s with
    | none => simp [both, bind, map, hms, hns]
    | some r => simp [both, bind, map, hms, hns, hn s r hns]
  | some q =>
    cases hns : n s with
    | none => simp [both, bind, map, hms, hns, hm s q hms]
    | some r => simp [both, bind, map, hms, hns, hm s q hms, hn s r hns]

def exec (m : Action σ α) (s : σ) : Option σ := (m s).map Prod.snd

theorem exec_eq_some {m : Action σ Unit} {s s' : σ} :
    m.exec s = some s' ↔ m s = some ((), s') := by
  constructor
  · intro h
    obtain ⟨⟨⟨⟩, s₁⟩, hm, rfl⟩ := Option.map_eq_some_iff.mp h
    exact hm
  · intro h
    simp [exec, h]

theorem exec_map (f : α → β) (m : Action σ α) : (m.map f).exec = m.exec := by
  funext s
  simp [exec, map, Function.comp_def]

theorem exec_both (m : Action σ α) (n : Action σ β) (s : σ) :
    (m.both n).exec s = (m.exec s).bind n.exec := by
  cases hm : m s with
  | none => simp [exec, both, bind, hm]
  | some r => simp [exec, both, bind, map, hm, Function.comp_def]

theorem Commute.exec {m : Action σ α} {n : Action σ β} (h : m.Commute n) (s : σ) :
    (m.exec s).bind n.exec = (n.exec s).bind m.exec := by
  rw [← exec_both, ← exec_both, h, exec_map]

end Action

end Catena.Framework
