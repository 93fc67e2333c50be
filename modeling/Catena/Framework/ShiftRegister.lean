import Mathlib.Data.BitVec

/-!
# Shift registers

A machine word is shifted to the left to take digits in and to the right to give digits out, and
what has been given out is never cleared. Only its low bits count: as many as are still to be
given out. They are a number that the digits are appended to and taken from, whatever the word
has above them and whatever is shifted out of it.
-/

namespace Catena.Framework

variable {w : Nat}

/-- The low `k` bits of the word are the number `n`. -/
def Holds (val : BitVec w) (k n : Nat) : Prop := val.toNat % 2 ^ k = n

namespace Holds

variable {val : BitVec w} {k s n : Nat}

theorem zero (val : BitVec w) : Holds val 0 0 := Nat.mod_one _

/-- A digit of `s` bits is shifted in. -/
theorem push {d : Nat} (h : Holds val k n) (hfits : k + s ≤ w) (hd : d < 2 ^ s) :
    Holds ((val <<< s) + BitVec.ofNat w d) (k + s) (n * 2 ^ s + d) := by
  have hdvd : 2 ^ (k + s) ∣ 2 ^ w := Nat.pow_dvd_pow 2 hfits
  rw [Holds] at h ⊢
  rw [BitVec.toNat_add, BitVec.toNat_shiftLeft, BitVec.toNat_ofNat, ← Nat.add_mod,
    Nat.mod_mod_of_dvd _ hdvd, Nat.shiftLeft_eq, ← h]
  have hlow := Nat.mod_lt val.toNat (Nat.two_pow_pos k)
  have hlt : val.toNat % 2 ^ k * 2 ^ s + d < 2 ^ (k + s) :=
    calc val.toNat % 2 ^ k * 2 ^ s + d
        < val.toNat % 2 ^ k * 2 ^ s + 2 ^ s := Nat.add_lt_add_left hd _
      _ = (val.toNat % 2 ^ k + 1) * 2 ^ s := (Nat.succ_mul _ _).symm
      _ ≤ 2 ^ k * 2 ^ s := Nat.mul_le_mul_right _ hlow
      _ = 2 ^ (k + s) := (Nat.pow_add 2 k s).symm
  calc (val.toNat * 2 ^ s + d) % 2 ^ (k + s)
      = (2 ^ (k + s) * (val.toNat / 2 ^ k) + (val.toNat % 2 ^ k * 2 ^ s + d)) % 2 ^ (k + s) := by
        conv_lhs => rw [← Nat.div_add_mod val.toNat (2 ^ k)]
        rw [Nat.add_mul, Nat.mul_right_comm, ← Nat.pow_add, Nat.add_assoc]
    _ = val.toNat % 2 ^ k * 2 ^ s + d := by rw [Nat.mul_add_mod, Nat.mod_eq_of_lt hlt]

theorem shift (h : Holds val k n) (hfits : k + s ≤ w) :
    Holds (val <<< s) (k + s) (n * 2 ^ s) := by
  have hpush := h.push hfits (Nat.two_pow_pos s)
  rwa [BitVec.add_zero, Nat.add_zero] at hpush

/-- The digit above the low `k` bits is shifted out, and what is below it stays. -/
theorem pop {d m : Nat} (h : Holds val (k + s) n) (hfits : k + s ≤ w) (hn : n = d * 2 ^ k + m)
    (hm : m < 2 ^ k) :
    (val.sshiftRight k &&& BitVec.ofNat w (2 ^ s - 1)).toNat = d ∧ Holds val k m := by
  have hdiv : n / 2 ^ k = d := by
    rw [hn, Nat.mul_comm, Nat.mul_add_div (Nat.two_pow_pos k), Nat.div_eq_of_lt hm, Nat.add_zero]
  have hmod : n % 2 ^ k = m := by
    rw [hn, Nat.mul_comm, Nat.mul_add_mod, Nat.mod_eq_of_lt hm]
  rw [Holds] at h
  constructor
  · rw [← hdiv, ← h]
    apply Nat.eq_of_testBit_eq
    intro i
    rw [BitVec.testBit_toNat, BitVec.getLsbD_and, BitVec.getLsbD_ofNat,
      Nat.testBit_two_pow_sub_one, Nat.testBit_div_two_pow, Nat.testBit_mod_two_pow,
      BitVec.testBit_toNat, BitVec.getLsbD_sshiftRight]
    by_cases hi : i < s
    · have hword : ¬w ≤ i := by omega
      have hshifted : i + k < w := by omega
      have hbelow : i + k < k + s := by omega
      simp [hi, hword, Nat.lt_of_not_le hword, hshifted, hbelow, Nat.add_comm k i]
    · have hbeyond : ¬i + k < k + s := by omega
      simp [hi, hbeyond]
  · rw [Holds, ← hmod, ← h, Nat.mod_mod_of_dvd _ (Nat.pow_dvd_pow 2 (Nat.le_add_right k s))]

end Holds

end Catena.Framework
