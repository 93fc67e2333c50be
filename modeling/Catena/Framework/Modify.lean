import Mathlib.Data.List.Basic
import Mathlib.Data.List.Count
import Mathlib.Logic.Function.Iterate

/-!
# Updating a list in place

Objects that are only ever created are kept in a list, in the order of their creation, and an
object is named by its position. `modifyAll` updates the objects at a list of positions.
-/

namespace Catena.Framework

variable {α β : Type}

def modifyAll (f : α → α) (is : List Nat) (l : List α) : List α :=
  is.foldl (fun l i => l.modify i f) l

theorem getElem?_modifyAll (f : α → α) (is : List Nat) (l : List α) (i : Nat) :
    (modifyAll f is l)[i]? = l[i]?.map (f^[is.count i]) := by
  induction is generalizing l with
  | nil => simp [modifyAll]
  | cons j is ih =>
    rw [modifyAll, List.foldl_cons]
    refine (ih (l.modify j f)).trans ?_
    by_cases h : j = i
    · subst h
      rw [List.getElem?_modify_eq, List.count_cons_self, Function.iterate_succ]
      exact Option.map_map _ _ _
    · rw [List.getElem?_modify_ne f l h, List.count_cons_of_ne h]

@[simp] theorem length_modifyAll (f : α → α) (is : List Nat) (l : List α) :
    (modifyAll f is l).length = l.length := by
  induction is generalizing l with
  | nil => rfl
  | cons i is ih => exact (ih (l.modify i f)).trans (List.length_modify f l i)

theorem map_modify {f : α → α} {g : α → β} (hf : ∀ x, g (f x) = g x) (i : Nat) (l : List α) :
    (l.modify i f).map g = l.map g := by
  apply List.ext_getElem?
  intro j
  rw [List.getElem?_map, List.getElem?_map, List.getElem?_modify]
  split
  · cases l[j]? with
    | none => rfl
    | some x => exact congrArg some (hf x)
  · cases l[j]? <;> rfl

theorem map_modifyAll {f : α → α} {g : α → β} (hf : ∀ x, g (f x) = g x) (is : List Nat)
    (l : List α) : (modifyAll f is l).map g = l.map g := by
  induction is generalizing l with
  | nil => rfl
  | cons i is ih => exact (ih (l.modify i f)).trans (map_modify hf i l)

theorem forall_mem_modify {P : α → Prop} {f : α → α} {i : Nat} {l : List α}
    (hf : ∀ x, l[i]? = some x → P x → P (f x)) (h : ∀ x ∈ l, P x) : ∀ x ∈ l.modify i f, P x := by
  intro x hx
  obtain ⟨j, hj⟩ := List.mem_iff_getElem?.mp hx
  rw [List.getElem?_modify] at hj
  obtain ⟨y, hy, rfl⟩ := Option.map_eq_some_iff.mp hj
  have hPy := h y (List.mem_of_getElem? hy)
  split
  · rename_i hij
    exact hf y (hij ▸ hy) hPy
  · exact hPy

theorem forall_mem_modifyAll {P : α → Prop} {f : α → α} (hf : ∀ x, P x → P (f x)) (is : List Nat)
    {l : List α} (h : ∀ x ∈ l, P x) : ∀ x ∈ modifyAll f is l, P x := by
  induction is generalizing l with
  | nil => exact h
  | cons i is ih => exact ih (forall_mem_modify (fun x _ => hf x) h)

theorem getElem?_set_cases {l : List α} {i j : Nat} {y z : α} (h : (l.set i y)[j]? = some z) :
    i = j ∧ z = y ∨ i ≠ j ∧ l[j]? = some z := by
  by_cases hij : i = j
  · subst hij
    rw [List.getElem?_set_self'] at h
    obtain ⟨_, _, rfl⟩ := Option.map_eq_some_iff.mp h
    exact Or.inl ⟨rfl, rfl⟩
  · rw [List.getElem?_set_ne hij] at h
    exact Or.inr ⟨hij, h⟩

theorem getElem?_concat_cases {l : List α} {j : Nat} {y z : α} (h : (l ++ [y])[j]? = some z) :
    l[j]? = some z ∨ j = l.length ∧ z = y := by
  rcases Nat.lt_or_ge j l.length with hlt | hge
  · exact Or.inl ((List.getElem?_append_left hlt).symm.trans h)
  · rw [List.getElem?_append_right hge, List.getElem?_singleton] at h
    split at h
    · obtain rfl := Option.some.inj h
      exact Or.inr ⟨by omega, rfl⟩
    · cases h

theorem exists_mem_set {P : α → Prop} {l : List α} {i : Nat} {y : α} (z : α)
    (hy : l[i]? = some y) (hP : ¬P y) (h : ∃ x ∈ l, P x) : ∃ x ∈ l.set i z, P x := by
  obtain ⟨x, hx, hPx⟩ := h
  obtain ⟨j, hj⟩ := List.mem_iff_getElem?.mp hx
  have hne : i ≠ j := by
    intro hij
    obtain rfl := Option.some.inj (hy.symm.trans (hij ▸ hj))
    exact hP hPx
  refine ⟨x, List.mem_iff_getElem?.mpr ⟨j, ?_⟩, hPx⟩
  rw [List.getElem?_set_ne hne]
  exact hj

theorem mem_set_of_getElem? {l : List α} {i : Nat} {y : α} (z : α) (hy : l[i]? = some y) :
    z ∈ l.set i z :=
  List.mem_set (List.getElem?_eq_some_iff.mp hy).1 z

/-- An object with a property that the new object does not have was there before. -/
theorem of_exists_mem_set {P : α → Prop} {l : List α} {i : Nat} {z : α} (hz : ¬P z)
    (h : ∃ x ∈ l.set i z, P x) : ∃ x ∈ l, P x := by
  obtain ⟨x, hx, hPx⟩ := h
  rcases List.mem_or_eq_of_mem_set hx with hx | rfl
  · exact ⟨x, hx, hPx⟩
  · exact absurd hPx hz

end Catena.Framework
