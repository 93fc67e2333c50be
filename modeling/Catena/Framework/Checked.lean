import Mathlib.Algebra.Group.Int.Defs
import Mathlib.Data.Int.Order.Basic

/-!
# Checked 32-bit arithmetic

Signed overflow has no meaning in C++. A checked operation computes on integers and answers
`none` when the result does not fit in 32 bits, so that a computation which answers has met
no overflow on the way.
-/

namespace Catena.Framework

/-- The 32-bit integer of that value, if there is one. -/
def checkedInt32 (z : Int) : Option Int32 :=
  if -2 ^ 31 ≤ z ∧ z < 2 ^ 31 then some (Int32.ofInt z) else none

def checkedSub (a b : Int32) : Option Int32 := checkedInt32 (a.toInt - b.toInt)

/-- `%`, which rounds the quotient towards zero. It has no meaning for a zero divisor or when
the quotient overflows. -/
def checkedMod (a b : Int32) : Option Int32 :=
  if b = 0 then none
  else (checkedInt32 (a.toInt.tdiv b.toInt)).map fun _ => Int32.ofInt (a.toInt.tmod b.toInt)

/-- `std::abs`. -/
def checkedAbs (a : Int32) : Option Int32 := checkedInt32 a.toInt.natAbs

theorem checkedInt32_eq_some_iff {z : Int} {a : Int32} :
    checkedInt32 z = some a ↔ a.toInt = z := by
  unfold checkedInt32
  split
  · rename_i h
    rw [Option.some.injEq]
    constructor
    · intro ha
      rw [← ha]
      exact Int32.toInt_ofInt_of_le h.1 h.2
    · intro ha
      rw [← ha]
      exact Int32.ofInt_toInt a
  · rename_i h
    constructor
    · intro ha
      cases ha
    · intro ha
      have hlow := Int32.le_toInt a
      have hhigh := Int32.toInt_lt a
      omega

theorem checkedInt32_eq_none_iff {z : Int} :
    checkedInt32 z = none ↔ z < -2 ^ 31 ∨ 2 ^ 31 ≤ z := by
  unfold checkedInt32
  split
  · simp; omega
  · simp; omega

theorem checkedSub_eq_some_iff {a b c : Int32} :
    checkedSub a b = some c ↔ c.toInt = a.toInt - b.toInt :=
  checkedInt32_eq_some_iff

theorem checkedSub_eq_none_iff {a b : Int32} :
    checkedSub a b = none ↔ a.toInt - b.toInt < -2 ^ 31 ∨ 2 ^ 31 ≤ a.toInt - b.toInt :=
  checkedInt32_eq_none_iff

theorem eq_sub_of_checkedSub {a b c : Int32} (h : checkedSub a b = some c) : c = a - b := by
  have hc := checkedSub_eq_some_iff.mp h
  apply Int32.toInt_inj.mp
  rw [Int32.toInt_sub, ← hc]
  have hlow := Int32.le_toInt c
  have hhigh := Int32.toInt_lt c
  exact (Int.bmod_eq_of_le (by omega) (by omega)).symm

theorem eq_mod_of_checkedMod {a b c : Int32} (h : checkedMod a b = some c) : c = a % b := by
  unfold checkedMod at h
  split at h
  · cases h
  · obtain ⟨q, -, hc⟩ := Option.map_eq_some_iff.mp h
    rw [← hc, ← Int32.toInt_mod, Int32.ofInt_toInt]

theorem checkedMod_of_pos {a b : Int32} (ha : 0 ≤ a.toInt) (hb : 0 < b.toInt) :
    checkedMod a b = some (a % b) ∧ (a % b).toInt = a.toInt % b.toInt := by
  have hmod : (a % b).toInt = a.toInt % b.toInt := by
    rw [Int32.toInt_mod, Int.tmod_eq_emod_of_nonneg ha]
  refine ⟨?_, hmod⟩
  have hne : b ≠ 0 := by
    intro h
    rw [h] at hb
    simp at hb
  have hquotient : a.toInt.tdiv b.toInt ≤ a.toInt := Int.tdiv_le_self _ ha
  have hnonneg : 0 ≤ a.toInt.tdiv b.toInt := Int.tdiv_nonneg ha (Int.le_of_lt hb)
  have hhigh := Int32.toInt_lt a
  have hfits : checkedInt32 (a.toInt.tdiv b.toInt) = some (Int32.ofInt (a.toInt.tdiv b.toInt)) :=
    if_pos ⟨by omega, by omega⟩
  rw [checkedMod, if_neg hne, hfits, Option.map_some, ← Int32.toInt_mod, Int32.ofInt_toInt]

theorem checkedAbs_eq_some_iff {a b : Int32} : checkedAbs a = some b ↔ b.toInt = a.toInt.natAbs :=
  checkedInt32_eq_some_iff

theorem checkedAbs_eq_none_iff {a : Int32} : checkedAbs a = none ↔ a = Int32.minValue := by
  have hlow := Int32.le_toInt a
  have hhigh := Int32.toInt_lt a
  rw [checkedAbs, checkedInt32_eq_none_iff, ← Int32.toInt_inj, Int32.toInt_minValue]
  omega

end Catena.Framework
