import Mathlib.Data.List.Basic

/-!
# Logs of actions

A log has actions on a world in their order, with the parties that took them. It says what the
world has become, and what each party has found when it acted.
-/

namespace Catena.Framework.Log

variable {W A : Type} (act : A → W → W)

def after (log : List (Option Nat × A)) (w : W) : W := log.foldl (fun w e => act e.2 w) w

/-- What a party does and finds, as the actions of a log come one after the other. -/
def found (j : Nat) : List (Option Nat × A) → W → List (A × W)
  | [], _ => []
  | e :: log, w => (if e.1 = some j then [(e.2, w)] else []) ++ found j log (act e.2 w)

theorem after_concat (log : List (Option Nat × A)) (e : Option Nat × A) (w : W) :
    after act (log ++ [e]) w = act e.2 (after act log w) := by
  simp [after]

theorem found_concat (j : Nat) (log : List (Option Nat × A)) (e : Option Nat × A) (w : W) :
    found act j (log ++ [e]) w =
      found act j log w ++ if e.1 = some j then [(e.2, after act log w)] else [] := by
  induction log generalizing w with
  | nil => simp [found, after]
  | cons e' log ih =>
    simp only [List.cons_append, found, ih, List.append_assoc]
    rfl

theorem found_concat_none (j : Nat) (log : List (Option Nat × A)) (a : A) (w : W) :
    found act j (log ++ [(none, a)]) w = found act j log w := by
  rw [found_concat, if_neg (by simp), List.append_nil]

theorem found_of_not_mem {j : Nat} {log : List (Option Nat × A)} {w : W}
    (h : ∀ e ∈ log, e.1 ≠ some j) : found act j log w = [] := by
  induction log generalizing w with
  | nil => rfl
  | cons e log ih =>
    rw [found, if_neg (h e List.mem_cons_self), List.nil_append]
    exact ih fun e' he' => h e' (List.mem_cons_of_mem e he')

theorem found_invariant {P : W → Prop} {log : List (Option Nat × A)}
    (hact : ∀ e ∈ log, ∀ w, P w → P (act e.2 w)) {w : W} (hw : P w) (j : Nat) :
    ∀ e ∈ found act j log w, P e.2 := by
  induction log generalizing w with
  | nil =>
    intro e he
    cases he
  | cons e log ih =>
    intro e' he'
    rcases List.mem_append.mp he' with hfirst | hlater
    · split at hfirst
      · obtain rfl := List.mem_singleton.mp hfirst
        exact hw
      · cases hfirst
    · exact ih (fun e he => hact e (List.mem_cons_of_mem _ he)) (hact e List.mem_cons_self w hw) e'
        hlater

theorem mem_found {j : Nat} {a : A} {log : List (Option Nat × A)} (h : (some j, a) ∈ log) (w : W) :
    ∃ w', (a, w') ∈ found act j log w := by
  induction log generalizing w with
  | nil => cases h
  | cons e log ih =>
    rcases List.mem_cons.mp h with rfl | h
    · exact ⟨w, by simp [found]⟩
    · obtain ⟨w', hw'⟩ := ih h (act e.2 w)
      exact ⟨w', List.mem_append_right _ hw'⟩

end Catena.Framework.Log
