import Mathlib.Data.List.Basic

/-!
# Cursors

A list with a place in it, as what has been passed and what is ahead. The cursor moves over the
list, which grows and shrinks at its far end. There is no place behind the end to move to.
-/

namespace Catena.Framework

/-- What has been passed, the nearest first, and what is ahead. -/
structure Cursor (α : Type) where
  passed : List α := []
  ahead : List α := []

namespace Cursor

variable {α : Type}

def all (c : Cursor α) : List α := c.passed.reverse ++ c.ahead

def advance : Cursor α → Cursor α
  | ⟨passed, a :: ahead⟩ => ⟨a :: passed, ahead⟩
  | ⟨passed, []⟩ => ⟨passed, []⟩

def retreat : Cursor α → Cursor α
  | ⟨a :: passed, ahead⟩ => ⟨passed, a :: ahead⟩
  | ⟨[], ahead⟩ => ⟨[], ahead⟩

def rewind (c : Cursor α) : Cursor α := ⟨[], c.all⟩

def push (c : Cursor α) (a : α) : Cursor α := ⟨c.passed, c.ahead ++ [a]⟩

/-- The last element goes away, also if it has been passed. -/
def dropBack : Cursor α → Cursor α
  | ⟨passed, a :: ahead⟩ => ⟨passed, (a :: ahead).dropLast⟩
  | ⟨passed, []⟩ => ⟨passed.tail, []⟩

theorem length_all (c : Cursor α) : c.all.length = c.passed.length + c.ahead.length := by
  rw [all, List.length_append, List.length_reverse]

@[simp] theorem all_advance (c : Cursor α) : c.advance.all = c.all := by
  obtain ⟨passed, _ | ⟨a, ahead⟩⟩ := c
  · rfl
  · simp [advance, all]

@[simp] theorem all_retreat (c : Cursor α) : c.retreat.all = c.all := by
  obtain ⟨_ | ⟨a, passed⟩, ahead⟩ := c
  · rfl
  · simp [retreat, all]

@[simp] theorem all_push (c : Cursor α) (a : α) : (c.push a).all = c.all ++ [a] :=
  (List.append_assoc _ _ _).symm

@[simp] theorem all_dropBack (c : Cursor α) : c.dropBack.all = c.all.dropLast := by
  obtain ⟨passed, _ | ⟨a, ahead⟩⟩ := c
  · cases passed with
    | nil => rfl
    | cons a passed => simp [dropBack, all]
  · exact (List.dropLast_append_of_ne_nil (List.cons_ne_nil a ahead)).symm

theorem retreat_advance {c : Cursor α} (h : c.ahead ≠ []) : c.advance.retreat = c := by
  obtain ⟨passed, _ | ⟨a, ahead⟩⟩ := c
  · exact absurd rfl h
  · rfl

theorem advance_of_nil {c : Cursor α} (h : c.ahead = []) : c.advance = c := by
  obtain ⟨passed, ahead⟩ := c
  cases h
  rfl

theorem dropBack_push (c : Cursor α) (a : α) : (c.push a).dropBack = c := by
  obtain ⟨passed, _ | ⟨b, ahead⟩⟩ := c
  · rfl
  · change Cursor.mk passed ((b :: ahead ++ [a]).dropLast) = _
    rw [List.dropLast_concat]

end Cursor

end Catena.Framework
