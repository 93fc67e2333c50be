import Catena.Framework.Checked
import Catena.Store.Constraint

/-!
# Integer range constraints

`RangeConstraint<int32_t>` in 32-bit arithmetic: the constructor stores the absolute value of
the step, `apply` clamps to the bounds and rounds down to the grid of the step, `satisfied`
tests both. Every operation is checked, so that an answer means that nothing overflowed; the
answers are those of `Constraint.applyInt` and `Constraint.satisfied`.

Clamping to the upper bound is not followed by rounding, so the bound itself has to lie on the
grid.
-/

namespace Catena.Store

open Framework

/-! ## Rounding down to a grid -/

theorem roundDown_eq (x k : Int) : x - x % k = k * (x / k) := by
  rw [Int.emod_def]
  omega

theorem roundDown_nonneg {x k : Int} (hk : 0 < k) (hx : 0 ≤ x) : 0 ≤ x - x % k := by
  rw [roundDown_eq]
  exact Int.mul_nonneg (Int.le_of_lt hk) (Int.ediv_nonneg hx (Int.le_of_lt hk))

theorem roundDown_mono {x y k : Int} (hk : 0 < k) (hxy : x ≤ y) : x - x % k ≤ y - y % k := by
  rw [roundDown_eq, roundDown_eq]
  exact Int.mul_le_mul_of_nonneg_left (Int.ediv_le_ediv hk hxy) (Int.le_of_lt hk)

theorem roundDown_emod (x k : Int) : (x - x % k) % k = 0 := by
  rw [roundDown_eq]
  exact Int.mul_emod_right k (x / k)

/-- `RangeConstraint<int32_t>` as its constructor leaves it. -/
structure RangeConstraint where
  min : Int32
  max : Int32
  step : Int32
  step_nonneg : 0 ≤ step.toInt

namespace RangeConstraint

/-- The constructor, which wants the step to be positive. -/
def new (min max step : Int32) : Option RangeConstraint :=
  (checkedAbs step).pmap (fun positive h => ⟨min, max, positive, h⟩) fun positive h => by
    have habs := checkedAbs_eq_some_iff.mp h
    omega

/-- `(s - min_) % step_`. -/
def remainder (c : RangeConstraint) (s : Int32) : Option Int32 :=
  (checkedSub s c.min).bind fun distance => checkedMod distance c.step

/-- `step_ && (s - min_) % step_ != 0`, which computes nothing for a zero step. -/
def offGrid (c : RangeConstraint) (s : Int32) : Option Bool :=
  if c.step = 0 then some false else (c.remainder s).map fun r => r ≠ 0

/-- `satisfied` on the held integer. -/
def satisfied (c : RangeConstraint) (s : Int32) : Option Bool :=
  if ¬c.min ≤ s then some false
  else if ¬s ≤ c.max then some false
  else if c.step = 0 then some true
  else (c.remainder s).map fun r => r = 0

/-- `apply` on the held integer. -/
def apply (c : RangeConstraint) (s : Int32) : Option Int32 :=
  if s < c.min then some c.min
  else if c.max < s then some c.max
  else (c.offGrid s).bind fun off =>
    if off then (c.remainder s).bind (checkedSub s) else some s

/-- What a range constraint is for: nothing overflows, `apply` answers a value that satisfies
the constraint, keeps the order and moves exactly the values that do not satisfy it. -/
structure Sound (c : RangeConstraint) : Prop where
  apply_defined : ∀ v, ∃ w, c.apply v = some w
  satisfied_defined : ∀ v, ∃ b, c.satisfied v = some b
  satisfied_apply : ∀ v w, c.apply v = some w → c.satisfied w = some true
  idempotent : ∀ v w, c.apply v = some w → c.apply w = some w
  monotone : ∀ v v' w w', v ≤ v' → c.apply v = some w → c.apply v' = some w' → w ≤ w'
  fixed_iff : ∀ v, c.apply v = some v ↔ c.satisfied v = some true

variable {c : RangeConstraint} {s : Int32}

theorem step_pos (h : c.step ≠ 0) : 0 < c.step.toInt := by
  have hne : c.step.toInt ≠ 0 := by
    intro hzero
    apply h
    apply Int32.toInt_inj.mp
    rw [hzero, Int32.toInt_zero]
  have hnonneg := c.step_nonneg
  omega

/-! ## Remainders -/

theorem remainder_eq_none (h : 2 ^ 31 ≤ s.toInt - c.min.toInt) : c.remainder s = none := by
  rw [remainder, checkedSub_eq_none_iff.mpr (Or.inr h), Option.bind_none]

theorem remainder_eq_some (hstep : c.step ≠ 0) (hlow : c.min.toInt ≤ s.toInt)
    (hfits : s.toInt - c.min.toInt < 2 ^ 31) :
    c.remainder s = some ((s - c.min) % c.step) ∧
      ((s - c.min) % c.step).toInt = (s.toInt - c.min.toInt) % c.step.toInt := by
  have hdistance : (s - c.min).toInt = s.toInt - c.min.toInt := by
    rw [Int32.toInt_sub]
    exact Int.bmod_eq_of_le (by omega) (by omega)
  have hmod := @checkedMod_of_pos (s - c.min) c.step (by omega) (step_pos hstep)
  constructor
  · rw [remainder, checkedSub_eq_some_iff.mpr hdistance, Option.bind_some, hmod.1]
  · rw [hmod.2, hdistance]

theorem toInt_eq_zero_iff {a : Int32} : a = 0 ↔ a.toInt = 0 := by
  rw [← Int32.toInt_inj, Int32.toInt_zero]

theorem eq_of_remainder {r : Int32} (h : c.remainder s = some r) : r = (s - c.min) % c.step := by
  obtain ⟨distance, hdistance, hmod⟩ := Option.bind_eq_some_iff.mp h
  rw [eq_mod_of_checkedMod hmod, eq_sub_of_checkedSub hdistance]

/-! ## What apply and satisfied answer -/

theorem apply_below (h : s.toInt < c.min.toInt) : c.apply s = some c.min :=
  if_pos (Int32.lt_iff_toInt_lt.mpr h)

theorem apply_above (hlow : c.min.toInt ≤ s.toInt) (h : c.max.toInt < s.toInt) :
    c.apply s = some c.max := by
  rw [apply, if_neg, if_pos (Int32.lt_iff_toInt_lt.mpr h)]
  rw [Int32.lt_iff_toInt_lt]
  omega

theorem apply_inside (hlow : c.min.toInt ≤ s.toInt) (hhigh : s.toInt ≤ c.max.toInt) :
    c.apply s = (c.offGrid s).bind fun off =>
      if off then (c.remainder s).bind (checkedSub s) else some s := by
  rw [apply, if_neg, if_neg]
  · rw [Int32.lt_iff_toInt_lt]
    omega
  · rw [Int32.lt_iff_toInt_lt]
    omega

theorem apply_zero (hstep : c.step = 0) (hlow : c.min.toInt ≤ s.toInt)
    (hhigh : s.toInt ≤ c.max.toInt) : c.apply s = some s := by
  rw [apply_inside hlow hhigh, offGrid, if_pos hstep]
  rfl

theorem apply_overflow (hstep : c.step ≠ 0) (hhigh : s.toInt ≤ c.max.toInt)
    (h : 2 ^ 31 ≤ s.toInt - c.min.toInt) : c.apply s = none := by
  rw [apply_inside (by omega) hhigh, offGrid, if_neg hstep, remainder_eq_none h]
  rfl

/-- In range and without overflow the value is rounded down to the grid. -/
theorem apply_grid (hstep : c.step ≠ 0) (hlow : c.min.toInt ≤ s.toInt)
    (hhigh : s.toInt ≤ c.max.toInt) (hfits : s.toInt - c.min.toInt < 2 ^ 31) :
    ∃ w, c.apply s = some w ∧
      w.toInt = s.toInt - (s.toInt - c.min.toInt) % c.step.toInt := by
  obtain ⟨hremainder, hvalue⟩ := remainder_eq_some hstep hlow hfits
  have hpos := step_pos hstep
  have hnonneg : 0 ≤ (s.toInt - c.min.toInt) % c.step.toInt := Int.emod_nonneg _ (by omega)
  have hle := roundDown_nonneg hpos (show 0 ≤ s.toInt - c.min.toInt by omega)
  rw [apply_inside hlow hhigh, offGrid, if_neg hstep, hremainder, Option.map_some,
    Option.bind_some, Option.bind_some]
  by_cases hzero : (s - c.min) % c.step = 0
  · refine ⟨s, by simp [hzero], ?_⟩
    rw [toInt_eq_zero_iff, hvalue] at hzero
    omega
  · have hlow' := Int32.le_toInt c.min
    have hhigh' := Int32.toInt_lt s
    obtain ⟨w, hw⟩ : ∃ w, checkedSub s ((s - c.min) % c.step) = some w := by
      apply Option.ne_none_iff_exists'.mp
      rw [Ne, checkedSub_eq_none_iff, hvalue]
      omega
    refine ⟨w, by simpa [hzero] using hw, ?_⟩
    rw [checkedSub_eq_some_iff.mp hw, hvalue]

theorem satisfied_below (h : s.toInt < c.min.toInt) : c.satisfied s = some false := by
  rw [satisfied, if_pos]
  rw [Int32.le_iff_toInt_le]
  omega

theorem satisfied_above (hlow : c.min.toInt ≤ s.toInt) (h : c.max.toInt < s.toInt) :
    c.satisfied s = some false := by
  rw [satisfied, if_neg, if_pos]
  · rw [Int32.le_iff_toInt_le]
    omega
  · rw [Int32.le_iff_toInt_le]
    omega

theorem satisfied_inside (hlow : c.min.toInt ≤ s.toInt) (hhigh : s.toInt ≤ c.max.toInt) :
    c.satisfied s = if c.step = 0 then some true else (c.remainder s).map fun r => r = 0 := by
  rw [satisfied, if_neg, if_neg]
  · rw [Int32.le_iff_toInt_le]
    omega
  · rw [Int32.le_iff_toInt_le]
    omega

theorem satisfied_grid (hstep : c.step ≠ 0) (hlow : c.min.toInt ≤ s.toInt)
    (hhigh : s.toInt ≤ c.max.toInt) (hfits : s.toInt - c.min.toInt < 2 ^ 31) :
    c.satisfied s = some (decide ((s.toInt - c.min.toInt) % c.step.toInt = 0)) := by
  obtain ⟨hremainder, hvalue⟩ := remainder_eq_some hstep hlow hfits
  rw [satisfied_inside hlow hhigh, if_neg hstep, hremainder, Option.map_some]
  simp only [toInt_eq_zero_iff, hvalue]

/-! ## The answers of the wrapping model -/

theorem offGrid_eq {off : Bool} (h : c.offGrid s = some off) :
    off = decide (c.step ≠ 0 ∧ (s - c.min) % c.step ≠ 0) := by
  unfold offGrid at h
  split at h
  · rename_i hstep
    simpa [hstep] using h.symm
  · rename_i hstep
    obtain ⟨r, hr, hoff⟩ := Option.map_eq_some_iff.mp h
    simp only [← hoff, eq_of_remainder hr, hstep, ne_eq, not_false_eq_true, true_and]

theorem applyInt_of_apply {w : Int32} (h : c.apply s = some w) :
    Constraint.applyInt c.min c.max c.step s = w := by
  unfold apply at h
  unfold Constraint.applyInt
  split at h
  · rename_i hbelow
    rw [if_pos hbelow]
    exact Option.some.inj h
  · rename_i hbelow
    rw [if_neg hbelow]
    split at h
    · rename_i habove
      rw [if_pos habove]
      exact Option.some.inj h
    · rename_i habove
      rw [if_neg habove]
      obtain ⟨off, hoff, hrest⟩ := Option.bind_eq_some_iff.mp h
      have hcase := offGrid_eq hoff
      split at hrest
      · rename_i hoff
        rw [if_pos (of_decide_eq_true (hcase.symm.trans hoff))]
        obtain ⟨r, hr, hw⟩ := Option.bind_eq_some_iff.mp hrest
        rw [eq_sub_of_checkedSub hw, eq_of_remainder hr]
      · rename_i hoff
        rw [if_neg (of_decide_eq_false (hcase.symm.trans (Bool.eq_false_iff.mpr hoff)))]
        exact Option.some.inj hrest

theorem satisfied_of_satisfied {b : Bool} (h : c.satisfied s = some b) :
    Constraint.satisfied (.intRange c.min c.max c.step) (.int32Value s) = b := by
  unfold satisfied at h
  split at h
  · rename_i hbelow
    simpa [Constraint.satisfied, hbelow] using h
  · rename_i hbelow
    split at h
    · rename_i habove
      simpa [Constraint.satisfied, habove] using h
    · rename_i habove
      rw [not_not] at hbelow habove
      split at h
      · rename_i hstep
        simpa [Constraint.satisfied, hbelow, habove, hstep] using h
      · rename_i hstep
        obtain ⟨r, hr, hb⟩ := Option.map_eq_some_iff.mp h
        simpa [Constraint.satisfied, hbelow, habove, hstep, eq_of_remainder hr] using hb

/-! ## The constraint on integers -/

/-- What `apply` computes, on integers. -/
def grid (c : RangeConstraint) (x : Int) : Int :=
  if x < c.min.toInt then c.min.toInt
  else if c.max.toInt < x then c.max.toInt
  else if c.step = 0 then x
  else x - (x - c.min.toInt) % c.step.toInt

/-- No value in range lies so far above the lower bound that the distance overflows. -/
def Narrow (c : RangeConstraint) : Prop := c.step = 0 ∨ c.max.toInt - c.min.toInt < 2 ^ 31

theorem apply_eq_grid (hnarrow : c.Narrow) : ∃ w, c.apply s = some w ∧ w.toInt = c.grid s.toInt := by
  unfold grid
  split
  · rename_i hbelow
    exact ⟨c.min, apply_below hbelow, rfl⟩
  · rename_i hbelow
    split
    · rename_i habove
      exact ⟨c.max, apply_above (by omega) habove, rfl⟩
    · rename_i habove
      split
      · rename_i hstep
        exact ⟨s, apply_zero hstep (by omega) (by omega), rfl⟩
      · rename_i hstep
        have hwidth := hnarrow.resolve_left hstep
        exact apply_grid hstep (by omega) (by omega) (by omega)

theorem satisfied_eq_grid (hnarrow : c.Narrow) :
    c.satisfied s = some (decide
      (c.min.toInt ≤ s.toInt ∧ s.toInt ≤ c.max.toInt ∧ c.grid s.toInt = s.toInt)) := by
  by_cases hbelow : s.toInt < c.min.toInt
  · rw [satisfied_below hbelow]
    simp only [Int.not_le.mpr hbelow, false_and, decide_false]
  have hlow : c.min.toInt ≤ s.toInt := by omega
  by_cases habove : c.max.toInt < s.toInt
  · rw [satisfied_above hlow habove]
    simp only [Int.not_le.mpr habove, false_and, and_false, decide_false]
  have hhigh : s.toInt ≤ c.max.toInt := by omega
  by_cases hstep : c.step = 0
  · rw [satisfied_inside hlow hhigh, if_pos hstep, grid, if_neg hbelow, if_neg habove,
      if_pos hstep]
    simp only [hlow, hhigh, and_self, decide_true]
  · have hwidth := hnarrow.resolve_left hstep
    rw [satisfied_grid hstep hlow hhigh (by omega), grid, if_neg hbelow, if_neg habove,
      if_neg hstep]
    simp only [hlow, hhigh, true_and, Option.some.injEq, decide_eq_decide]
    omega

section grid

variable {x y : Int}

theorem grid_below (h : x < c.min.toInt) : c.grid x = c.min.toInt := if_pos h

theorem grid_above (hlow : c.min.toInt ≤ x) (h : c.max.toInt < x) : c.grid x = c.max.toInt := by
  rw [grid, if_neg (by omega), if_pos h]

theorem grid_zero (hstep : c.step = 0) (hlow : c.min.toInt ≤ x) (hhigh : x ≤ c.max.toInt) :
    c.grid x = x := by
  rw [grid, if_neg (by omega), if_neg (by omega), if_pos hstep]

theorem grid_round (hstep : c.step ≠ 0) (hlow : c.min.toInt ≤ x) (hhigh : x ≤ c.max.toInt) :
    c.grid x = x - (x - c.min.toInt) % c.step.toInt := by
  rw [grid, if_neg (by omega), if_neg (by omega), if_neg hstep]

theorem grid_inside (hle : c.min.toInt ≤ c.max.toInt) :
    c.min.toInt ≤ c.grid x ∧ c.grid x ≤ c.max.toInt := by
  unfold grid
  split
  · omega
  · split
    · omega
    · split
      · omega
      · rename_i hlow hhigh hstep
        have hpos := step_pos hstep
        have hnonneg := Int.emod_nonneg (x - c.min.toInt) (show c.step.toInt ≠ 0 by omega)
        have hround := roundDown_nonneg hpos (show 0 ≤ x - c.min.toInt by omega)
        omega

theorem grid_mono (hle : c.min.toInt ≤ c.max.toInt) (hxy : x ≤ y) : c.grid x ≤ c.grid y := by
  by_cases hbelow : x < c.min.toInt
  · rw [grid_below hbelow]
    exact (grid_inside hle).1
  by_cases habove : c.max.toInt < y
  · rw [@grid_above c y (by omega) habove]
    exact (grid_inside hle).2
  by_cases hstep : c.step = 0
  · rw [grid_zero hstep (by omega) (by omega), grid_zero hstep (by omega) (by omega)]
    exact hxy
  · rw [grid_round hstep (by omega) (by omega), grid_round hstep (by omega) (by omega)]
    have hround := roundDown_mono (step_pos hstep)
      (show x - c.min.toInt ≤ y - c.min.toInt by omega)
    omega

theorem grid_grid (hle : c.min.toInt ≤ c.max.toInt)
    (hend : c.max.toInt < x → c.grid c.max.toInt = c.max.toInt) :
    c.grid (c.grid x) = c.grid x := by
  by_cases hbelow : x < c.min.toInt
  · rw [grid_below hbelow]
    by_cases hstep : c.step = 0
    · exact grid_zero hstep (by omega) hle
    · rw [grid_round hstep (by omega) hle]
      simp
  by_cases habove : c.max.toInt < x
  · rw [@grid_above c x (by omega) habove, hend habove]
  have hinside := @grid_inside c x hle
  by_cases hstep : c.step = 0
  · exact grid_zero hstep hinside.1 hinside.2
  · rw [grid_round hstep hinside.1 hinside.2, grid_round hstep (by omega) (by omega)]
    have hmod := roundDown_emod (x - c.min.toInt) c.step.toInt
    rw [show x - (x - c.min.toInt) % c.step.toInt - c.min.toInt
      = x - c.min.toInt - (x - c.min.toInt) % c.step.toInt by omega, hmod]
    omega

theorem grid_max (hle : c.min.toInt ≤ c.max.toInt) :
    c.grid c.max.toInt = c.max.toInt ↔
      c.step = 0 ∨ c.step.toInt ∣ c.max.toInt - c.min.toInt := by
  by_cases hstep : c.step = 0
  · simp only [hstep, true_or, iff_true]
    exact grid_zero hstep hle (by omega)
  · rw [grid_round hstep hle (by omega), Int.dvd_iff_emod_eq_zero]
    simp only [hstep, false_or]
    omega

end grid

/-! ## When a range constraint does its work -/

/-- A clamped value lies on the grid, unless no 32-bit value is above the upper bound. -/
def EndReached (c : RangeConstraint) : Prop :=
  c.step = 0 ∨ c.step.toInt ∣ c.max.toInt - c.min.toInt ∨ c.max = Int32.maxValue

theorem grid_max_of_lt (hle : c.min.toInt ≤ c.max.toInt) (hend : c.EndReached)
    (h : c.max.toInt < s.toInt) : c.grid c.max.toInt = c.max.toInt := by
  rw [grid_max hle]
  rcases hend with hstep | hdvd | hmax
  · exact Or.inl hstep
  · exact Or.inr hdvd
  · have hhigh := Int32.toInt_lt s
    rw [hmax, Int32.toInt_maxValue] at h
    omega

theorem sound_of_narrow (hle : c.min.toInt ≤ c.max.toInt) (hnarrow : c.Narrow)
    (hend : c.EndReached) : c.Sound := by
  have happly : ∀ v w, c.apply v = some w → w.toInt = c.grid v.toInt := by
    intro v w h
    obtain ⟨w', hw', hgrid⟩ := @apply_eq_grid c v hnarrow
    rw [h, Option.some.injEq] at hw'
    rw [hw', hgrid]
  have hfixed : ∀ v w, c.apply v = some w → c.grid w.toInt = w.toInt := by
    intro v w h
    rw [happly v w h]
    exact grid_grid hle (grid_max_of_lt hle hend)
  have hstays : ∀ v, c.grid v.toInt = v.toInt → c.apply v = some v := by
    intro v h
    obtain ⟨w, hw, hgrid⟩ := @apply_eq_grid c v hnarrow
    rw [hw, Int32.toInt_inj.mp (hgrid.trans h)]
  have hsatisfied : ∀ v, c.satisfied v = some true ↔ c.grid v.toInt = v.toInt := by
    intro v
    rw [satisfied_eq_grid hnarrow, Option.some.injEq, decide_eq_true_iff]
    constructor
    · intro h
      exact h.2.2
    · intro h
      have hinside := @grid_inside c v.toInt hle
      omega
  constructor
  · intro v
    obtain ⟨w, hw, -⟩ := @apply_eq_grid c v hnarrow
    exact ⟨w, hw⟩
  · intro v
    exact ⟨_, satisfied_eq_grid hnarrow⟩
  · intro v w h
    exact (hsatisfied w).mpr (hfixed v w h)
  · intro v w h
    exact hstays w (hfixed v w h)
  · intro v v' w w' hle' hw hw'
    rw [Int32.le_iff_toInt_le] at hle' ⊢
    rw [happly v w hw, happly v' w' hw']
    exact grid_mono hle hle'
  · intro v
    rw [hsatisfied]
    constructor
    · intro h
      exact (happly v v h).symm
    · intro h
      exact hstays v h

theorem narrow_of_sound (hsound : c.Sound) : c.Narrow := by
  by_cases hstep : c.step = 0
  · exact Or.inl hstep
  · apply Or.inr
    by_contra hwide
    -- The upper bound itself is in range and too far from the lower one.
    obtain ⟨w, hw⟩ := hsound.apply_defined c.max
    rw [apply_overflow hstep (by omega) (by omega)] at hw
    cases hw

theorem endReached_of_sound (hle : c.min.toInt ≤ c.max.toInt) (hsound : c.Sound) :
    c.EndReached := by
  have hnarrow := narrow_of_sound hsound
  by_cases hmax : c.max = Int32.maxValue
  · exact Or.inr (Or.inr hmax)
  · have hlt : c.max.toInt + 1 < 2 ^ 31 := by
      have hhigh := Int32.toInt_lt c.max
      rw [← Int32.toInt_inj, Int32.toInt_maxValue] at hmax
      omega
    have hlow := Int32.le_toInt c.max
    -- The least value above the upper bound is clamped to it.
    have hv : (Int32.ofInt (c.max.toInt + 1)).toInt = c.max.toInt + 1 :=
      Int32.toInt_ofInt_of_le (by omega) hlt
    have happly := @apply_above c (Int32.ofInt (c.max.toInt + 1)) (by omega) (by omega)
    have hsatisfied := hsound.satisfied_apply _ _ happly
    rw [satisfied_eq_grid hnarrow, Option.some.injEq, decide_eq_true_iff] at hsatisfied
    rcases (grid_max hle).mp hsatisfied.2.2 with hstep | hdvd
    · exact Or.inl hstep
    · exact Or.inr (Or.inl hdvd)

theorem new_eq_some_iff {min max step : Int32} :
    new min max step = some c ↔
      c.min = min ∧ c.max = max ∧ c.step.toInt = step.toInt.natAbs := by
  rw [new, Option.pmap_eq_some_iff]
  constructor
  · rintro ⟨positive, hpositive, habs, rfl⟩
    exact ⟨rfl, rfl, checkedAbs_eq_some_iff.mp habs⟩
  · rintro ⟨rfl, rfl, habs⟩
    exact ⟨c.step, c.step_nonneg, checkedAbs_eq_some_iff.mpr habs, rfl⟩

/-- The constructor, `apply` and `satisfied` do their work exactly for a zero step, and for a
step with an absolute value when the width of the range does not overflow and the upper bound
lies on the grid or is the greatest value. -/
theorem sound_iff_max_on_grid (min max step : Int32) (hle : min ≤ max) :
    (∃ c, new min max step = some c ∧ c.Sound) ↔
      step = 0 ∨ step ≠ Int32.minValue ∧ max.toInt - min.toInt < 2 ^ 31 ∧
        (step.toInt ∣ max.toInt - min.toInt ∨ max = Int32.maxValue) := by
  rw [Int32.le_iff_toInt_le] at hle
  by_cases hzero : step = 0
  · -- A zero step computes nothing beyond the clamping.
    have hstep : new min max step = some ⟨min, max, 0, by decide⟩ := by
      rw [new_eq_some_iff, hzero]
      exact ⟨rfl, rfl, rfl⟩
    have hsound : Sound ⟨min, max, 0, by decide⟩ :=
      sound_of_narrow hle (Or.inl rfl) (Or.inl rfl)
    simp only [hzero, true_or, iff_true]
    exact ⟨_, hzero ▸ hstep, hsound⟩
  · simp only [hzero, false_or]
    constructor
    · rintro ⟨c, hnew, hsound⟩
      obtain ⟨rfl, rfl, hstep⟩ := new_eq_some_iff.mp hnew
      have hne : c.step ≠ 0 := by
        intro h
        rw [toInt_eq_zero_iff] at h hzero
        omega
      refine ⟨?_, (narrow_of_sound hsound).resolve_left hne, ?_⟩
      · intro hmin
        have hhigh := Int32.toInt_lt c.step
        rw [hstep, hmin, Int32.toInt_minValue] at hhigh
        omega
      · have hend := (endReached_of_sound hle hsound).resolve_left hne
        rwa [hstep, Int.natAbs_dvd] at hend
    · rintro ⟨hmin, hwidth, hend⟩
      obtain ⟨positive, habs⟩ : ∃ positive, checkedAbs step = some positive := by
        apply Option.ne_none_iff_exists'.mp
        rwa [Ne, checkedAbs_eq_none_iff]
      have hvalue := checkedAbs_eq_some_iff.mp habs
      refine ⟨⟨min, max, positive, by omega⟩, new_eq_some_iff.mpr ⟨rfl, rfl, hvalue⟩, ?_⟩
      have hend' : positive.toInt ∣ max.toInt - min.toInt ∨ max = Int32.maxValue := by
        rwa [hvalue, Int.natAbs_dvd]
      exact sound_of_narrow hle (Or.inr hwidth) (Or.inr hend')

/-- A level from 0 to 10 in steps of 5. -/
theorem sound_iff_max_on_grid_level :
    (0 : Int32) ≤ 10 ∧ ((∃ c, new 0 10 5 = some c ∧ c.Sound) ↔
      (5 : Int32) = 0 ∨ (5 : Int32) ≠ Int32.minValue ∧
        (10 : Int32).toInt - (0 : Int32).toInt < 2 ^ 31 ∧
          ((5 : Int32).toInt ∣ (10 : Int32).toInt - (0 : Int32).toInt ∨
            (10 : Int32) = Int32.maxValue)) :=
  ⟨by decide, sound_iff_max_on_grid 0 10 5 (by decide)⟩

/-- From 0 to 10 in steps of 3, the value 11 is clamped to 10, which is not on the grid. -/
theorem not_sound_ten_by_three :
    (0 : Int32) ≤ 10 ∧ ¬∃ c, new 0 10 3 = some c ∧ c.Sound := by
  refine ⟨by decide, ?_⟩
  rintro ⟨c, hnew, hsound⟩
  obtain ⟨hmin, hmax, hstep⟩ := new_eq_some_iff.mp hnew
  have happly : c.apply 11 = some c.max := apply_above (by rw [hmin]; decide) (by rw [hmax]; decide)
  have hsatisfied := hsound.satisfied_apply 11 c.max happly
  rw [satisfied_grid] at hsatisfied
  · rw [hmin, hmax, hstep] at hsatisfied
    revert hsatisfied
    decide
  · intro hzero
    rw [hzero] at hstep
    revert hstep
    decide
  · rw [hmin, hmax]
    decide
  · omega
  · rw [hmin, hmax]
    decide

end RangeConstraint

end Catena.Store
