import Mathlib.Data.List.Basic

/-!
# Slices

A slice is a window at the start of an array that other slices may share. Appending writes into
the array while there is capacity and moves to a new array otherwise, with some spare capacity.
-/

namespace Catena.Framework

variable {α : Type}

/-- A slice: the position of its array in memory, its length and its capacity. -/
structure Slice where
  array : Nat := 0
  len : Nat := 0
  cap : Nat := 0

namespace Slice

def read (memory : List (List α)) (s : Slice) : List α := (memory[s.array]?.getD []).take s.len

/-- The array is there and as long as the capacity says. -/
structure Valid (memory : List (List α)) (s : Slice) : Prop where
  len_le : s.len ≤ s.cap
  array : s.cap ≠ 0 → ∃ a, memory[s.array]? = some a ∧ a.length = s.cap

/-- `s[:i]`. -/
def upTo (s : Slice) (i : Nat) : Slice := { s with len := i }

/-- `append(s, xs...)`: the memory and the new slice. -/
def append [Inhabited α] (memory : List (List α)) (s : Slice) (xs : List α) (spare : Nat) :
    List (List α) × Slice :=
  if s.len + xs.length ≤ s.cap then
    (memory.modify s.array fun a => a.take s.len ++ xs ++ a.drop (s.len + xs.length),
      { s with len := s.len + xs.length })
  else
    let items := s.read memory ++ xs
    (memory ++ [items ++ List.replicate spare default],
      ⟨memory.length, items.length, items.length + spare⟩)

theorem valid_nil (memory : List (List α)) : Valid memory {} :=
  ⟨Nat.le_refl 0, fun h => absurd rfl h⟩

@[simp] theorem read_nil (memory : List (List α)) : read memory {} = [] := by
  simp [read]

theorem Valid.upTo {memory : List (List α)} {s : Slice} (h : s.Valid memory) {i : Nat}
    (hi : i ≤ s.len) : (s.upTo i).Valid memory :=
  ⟨Nat.le_trans hi h.len_le, h.array⟩

theorem read_upTo {memory : List (List α)} {s : Slice} {i : Nat} (hi : i ≤ s.len) :
    (s.upTo i).read memory = (s.read memory).take i := by
  simp only [read, upTo, List.take_take]
  rw [Nat.min_eq_left hi]

theorem Valid.append [Inhabited α] {memory : List (List α)} {s : Slice} (h : s.Valid memory)
    (xs : List α) (spare : Nat) :
    (s.append memory xs spare).2.Valid (s.append memory xs spare).1 := by
  simp only [Slice.append]
  split
  · rename_i hroom
    refine ⟨hroom, fun hcap => ?_⟩
    obtain ⟨a, ha, hlen⟩ := h.array hcap
    refine ⟨_, by rw [List.getElem?_modify_eq, ha]; rfl, ?_⟩
    simp only [List.length_append, List.length_take, List.length_drop, hlen]
    have hle := h.len_le
    omega
  · refine ⟨Nat.le_add_right _ _, fun _ => ⟨_, List.getElem?_concat_length, ?_⟩⟩
    simp only [List.length_append, List.length_replicate]

theorem read_append [Inhabited α] {memory : List (List α)} {s : Slice} (h : s.Valid memory)
    (xs : List α) (spare : Nat) :
    (s.append memory xs spare).2.read (s.append memory xs spare).1 = s.read memory ++ xs := by
  simp only [Slice.append]
  split
  · rename_i hroom
    by_cases hcap : s.cap = 0
    · have hxs : xs = [] := List.length_eq_zero_iff.mp (by omega)
      have hlen : s.len = 0 := by omega
      subst hxs
      simp [read, hlen]
    · obtain ⟨a, ha, hlen⟩ := h.array hcap
      have hle := h.len_le
      simp only [read, List.getElem?_modify_eq, ha, Option.getD_some]
      change List.take (s.len + xs.length) (a.take s.len ++ xs ++ a.drop (s.len + xs.length)) = _
      apply List.take_left'
      simp only [List.length_append, List.length_take, hlen]
      omega
  · change ((memory ++ [_])[memory.length]?.getD []).take _ = _
    rw [List.getElem?_concat_length, Option.getD_some]
    exact List.take_left' rfl

/-- `append(s[:i], s[i+1:]...)`, which always has room. -/
def remove [Inhabited α] (memory : List (List α)) (s : Slice) (i : Nat) : List (List α) × Slice :=
  (s.upTo i).append memory ((s.read memory).drop (i + 1)) 0

theorem Valid.remove [Inhabited α] {memory : List (List α)} {s : Slice} (h : s.Valid memory)
    {i : Nat} (hi : i < s.len) : (s.remove memory i).2.Valid (s.remove memory i).1 :=
  (h.upTo (Nat.le_of_lt hi)).append _ 0

theorem read_remove [Inhabited α] {memory : List (List α)} {s : Slice} (h : s.Valid memory)
    {i : Nat} (hi : i < s.len) :
    (s.remove memory i).2.read (s.remove memory i).1 = (s.read memory).eraseIdx i := by
  rw [Slice.remove, read_append (h.upTo (Nat.le_of_lt hi)), read_upTo (Nat.le_of_lt hi),
    List.eraseIdx_eq_take_drop_succ]

theorem length_read {memory : List (List α)} {s : Slice} (h : s.Valid memory) :
    (s.read memory).length = s.len := by
  by_cases hcap : s.cap = 0
  · have hle := h.len_le
    have hlen : s.len = 0 := by omega
    simp [read, hlen]
  · obtain ⟨a, ha, hlen⟩ := h.array hcap
    have hle := h.len_le
    simp only [read, ha, Option.getD_some, List.length_take]
    omega

end Slice

end Catena.Framework
