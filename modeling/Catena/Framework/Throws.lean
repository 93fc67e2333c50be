import Mathlib.Data.List.Forall2

/-!
# Steps that may throw

A sequence of steps succeeds when each of its steps does, and throws what its first failing step
throws.
-/

namespace Catena.Framework

variable {ε α β : Type}

theorem bind_eq_ok_iff {a : Except ε α} {f : α → Except ε β} {b : β} :
    (a >>= f) = .ok b ↔ ∃ x, a = .ok x ∧ f x = .ok b := by
  cases a with
  | error e => exact ⟨fun h => (nomatch h), fun ⟨_, h, _⟩ => (nomatch h)⟩
  | ok x => exact ⟨fun h => ⟨x, rfl, h⟩, fun ⟨_, hx, h⟩ => by rwa [Except.ok.inj hx]⟩

theorem bind_ne_error {a : Except ε α} {f : α → Except ε β} {why : ε}
    (ha : a ≠ .error why) (hf : ∀ x, f x ≠ .error why) : (a >>= f) ≠ .error why := by
  cases a with
  | error why' => exact fun h => ha (congrArg Except.error (Except.error.inj h))
  | ok x => exact hf x

theorem foldlM_cons_ok {step : β → α → Except ε β} {a : α} {l : List α} {b b' : β}
    (h : (a :: l).foldlM step b = .ok b') :
    ∃ b₁, step b a = .ok b₁ ∧ l.foldlM step b₁ = .ok b' := by
  rw [List.foldlM_cons] at h
  exact bind_eq_ok_iff.mp h

theorem foldlM_append_ok {step : β → α → Except ε β} {l l' : List α} {b b₁ b' : β}
    (h : l.foldlM step b = .ok b₁) (h' : l'.foldlM step b₁ = .ok b') :
    (l ++ l').foldlM step b = .ok b' := by
  rw [List.foldlM_append]
  exact bind_eq_ok_iff.mpr ⟨b₁, h, h'⟩

theorem mapM_ok {f : α → Except ε β} {l : List α} {l' : List β} (h : l.mapM f = .ok l') :
    List.Forall₂ (fun a b => f a = .ok b) l l' := by
  induction l generalizing l' with
  | nil =>
    obtain rfl := Except.ok.inj h
    exact List.Forall₂.nil
  | cons a l ih =>
    rw [List.mapM_cons] at h
    obtain ⟨b, hb, h⟩ := bind_eq_ok_iff.mp h
    obtain ⟨rest, hrest, h⟩ := bind_eq_ok_iff.mp h
    obtain rfl := Except.ok.inj h
    exact List.Forall₂.cons hb (ih hrest)

theorem foldlM_fixed {step : β → α → Except ε β} {b b' : β} (hfixed : ∀ a, step b a = .ok b)
    {l : List α} (h : l.foldlM step b = .ok b') : b' = b := by
  induction l with
  | nil => exact (Except.ok.inj h).symm
  | cons a l ih =>
    rw [List.foldlM_cons, hfixed] at h
    exact ih h

end Catena.Framework
