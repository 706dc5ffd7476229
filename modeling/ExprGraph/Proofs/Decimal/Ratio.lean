import Mathlib.Algebra.Order.Floor.Semifield
import Mathlib.Data.Int.Log
import Mathlib.Data.Rat.Floor
import Mathlib.Tactic
import ExprGraph.Ratio

set_option autoImplicit false

namespace ExprGraph.Ratio

variable {a b r : Ratio} {m n k : Nat}

def toRat (r : Ratio) : ℚ := r.num / r.den

@[simp] theorem toRat_ofNat (n : Nat) : (ofNat n).toRat = n := by
  simp [ofNat, toRat]

@[simp] theorem den_ofNat_pos (n : Nat) : 0 < (ofNat n).den := Nat.one_pos

theorem toRat_scale (r : Ratio) (base : Nat) (k : Int) :
    (r.scale base k).toRat = r.toRat * (base : ℚ) ^ k := by
  cases k with
  | ofNat k =>
    simp only [scale, toRat, Nat.pow_eq, Nat.cast_mul, Nat.cast_pow, Int.ofNat_eq_natCast,
      zpow_natCast]
    ring
  | negSucc k =>
    simp only [scale, toRat, Nat.pow_eq, Nat.cast_mul, Nat.cast_pow, zpow_negSucc]
    rw [div_mul_eq_div_div, div_eq_mul_inv]

theorem den_scale_pos {base : Nat} (positive : 0 < r.den) (basePositive : 0 < base) (k : Int) :
    0 < (r.scale base k).den := by
  cases k with
  | ofNat k => exact positive
  | negSucc k => exact Nat.mul_pos positive (Nat.pow_pos basePositive)

theorem toRat_pos_iff (positive : 0 < r.den) : 0 < r.toRat ↔ r.num ≠ 0 := by
  have den : (0 : ℚ) < r.den := Nat.cast_pos.mpr positive
  rw [toRat, div_pos_iff_of_pos_right den, Nat.cast_pos, Nat.pos_iff_ne_zero]

theorem le_iff (left : 0 < a.den) (right : 0 < b.den) : a.le b ↔ a.toRat ≤ b.toRat := by
  have leftDen : (0 : ℚ) < a.den := Nat.cast_pos.mpr left
  have rightDen : (0 : ℚ) < b.den := Nat.cast_pos.mpr right
  rw [toRat, toRat, div_le_div_iff₀ leftDen rightDen, le, decide_eq_true_iff]
  exact_mod_cast Iff.rfl

theorem lt_iff (left : 0 < a.den) (right : 0 < b.den) : a.lt b ↔ a.toRat < b.toRat := by
  have leftDen : (0 : ℚ) < a.den := Nat.cast_pos.mpr left
  have rightDen : (0 : ℚ) < b.den := Nat.cast_pos.mpr right
  rw [toRat, toRat, div_lt_div_iff₀ leftDen rightDen, lt, decide_eq_true_iff]
  exact_mod_cast Iff.rfl

theorem floor_eq (r : Ratio) : r.floor = ⌊r.toRat⌋₊ :=
  (Nat.floor_div_eq_div r.num r.den).symm

theorem nearestEven_of_bounds (positive : 0 < r.den)
    (low : 2 * m * r.den ≤ 2 * r.num + r.den) (high : 2 * r.num ≤ 2 * m * r.den + r.den)
    (inside : m % 2 = 1 →
      2 * m * r.den < 2 * r.num + r.den ∧ 2 * r.num < 2 * m * r.den + r.den) :
    r.nearestEven = m := by
  have division := Nat.div_add_mod r.num r.den
  have remainder := Nat.mod_lt r.num positive
  unfold nearestEven floor
  generalize r.num / r.den = q at *
  generalize r.num % r.den = s at *
  obtain rfl | rfl : m = q ∨ m = q + 1 := by
    have notAbove : m ≤ q + 1 := by
      by_contra more
      have : (q + 2) * r.den ≤ m * r.den := Nat.mul_le_mul_right _ (by omega)
      lia
    have notBelow : q ≤ m := by
      by_contra more
      have : (m + 1) * r.den ≤ q * r.den := Nat.mul_le_mul_right _ (by omega)
      lia
    omega
  · grind
  · grind

theorem nearestEven_eq (positive : 0 < r.den) (low : (m : ℚ) - 1 / 2 ≤ r.toRat)
    (high : r.toRat ≤ m + 1 / 2)
    (inside : m % 2 = 1 → (m : ℚ) - 1 / 2 < r.toRat ∧ r.toRat < m + 1 / 2) :
    r.nearestEven = m := by
  have den : (0 : ℚ) < r.den := Nat.cast_pos.mpr positive
  have value : r.toRat * r.den = r.num := div_mul_cancel₀ _ den.ne'
  refine nearestEven_of_bounds positive ?_ ?_ fun odd => ?_
  · have scaled := mul_le_mul_of_nonneg_right low den.le
    have : (2 * m * r.den : ℚ) ≤ 2 * r.num + r.den := by linarith
    exact_mod_cast this
  · have scaled := mul_le_mul_of_nonneg_right high den.le
    have : (2 * r.num : ℚ) ≤ 2 * m * r.den + r.den := by linarith
    exact_mod_cast this
  · have scaledLow := mul_lt_mul_of_pos_right (inside odd).1 den
    have scaledHigh := mul_lt_mul_of_pos_right (inside odd).2 den
    have first : (2 * m * r.den : ℚ) < 2 * r.num + r.den := by linarith
    have second : (2 * r.num : ℚ) < 2 * m * r.den + r.den := by linarith
    exact ⟨by exact_mod_cast first, by exact_mod_cast second⟩

theorem digitCount_le_iff : digitCount n ≤ k ↔ n < 10 ^ k := by
  induction n using Nat.strong_induction_on generalizing k with
  | _ n ih =>
    unfold digitCount
    split
    next zero => simp [zero]
    next positive =>
      cases k with
      | zero => simp [positive]
      | succ k =>
        rw [Nat.add_le_add_iff_right, ih (n / 10) (by omega), Nat.pow_succ]
        exact Nat.div_lt_iff_lt_mul (by decide)

theorem exists_digitCount_eq (positive : n ≠ 0) :
    ∃ k, digitCount n = k + 1 ∧ 10 ^ k ≤ n ∧ n < 10 ^ (k + 1) := by
  have nonzero : digitCount n ≠ 0 := fun zero =>
    positive (Nat.lt_one_iff.mp (digitCount_le_iff.mp zero.le))
  obtain ⟨k, count⟩ := Nat.exists_eq_succ_of_ne_zero nonzero
  have low : ¬ digitCount n ≤ k := by omega
  exact ⟨k, count, not_lt.mp (mt digitCount_le_iff.mpr low), digitCount_le_iff.mp count.le⟩

theorem log_eq_of_bounds {b : Nat} (large : 1 < b) {x : ℚ} {k : Int} (low : (b : ℚ) ^ k ≤ x)
    (high : x < (b : ℚ) ^ (k + 1)) : Int.log b x = k := by
  have positive : 0 < x := (zpow_pos (by positivity) k).trans_le low
  have above := (Int.zpow_le_iff_le_log large positive).mp low
  have below := (Int.lt_zpow_iff_log_lt large positive).mp high
  omega

-- The lengths leave two binades for the ratio.
theorem log2_bounds (positive : 0 < r.den) (nonzero : r.num ≠ 0) :
    (2 : ℚ) ^ ((r.num.log2 : Int) - r.den.log2 - 1) < r.toRat ∧
      r.toRat < (2 : ℚ) ^ ((r.num.log2 : Int) - r.den.log2 + 1) := by
  have den : (0 : ℚ) < r.den := Nat.cast_pos.mpr positive
  have numLow : (2 : ℚ) ^ (r.num.log2 : Int) ≤ r.num := by
    exact_mod_cast Nat.log2_self_le nonzero
  have numHigh : (r.num : ℚ) < 2 ^ (r.num.log2 + 1 : Int) := by
    exact_mod_cast Nat.lt_log2_self
  have denLow : (2 : ℚ) ^ (r.den.log2 : Int) ≤ r.den := by
    exact_mod_cast Nat.log2_self_le positive.ne'
  have denHigh : (r.den : ℚ) < 2 ^ (r.den.log2 + 1 : Int) := by
    exact_mod_cast Nat.lt_log2_self
  rw [toRat, lt_div_iff₀ den, div_lt_iff₀ den]
  constructor
  · calc (2 : ℚ) ^ ((r.num.log2 : Int) - r.den.log2 - 1) * r.den
      _ < 2 ^ ((r.num.log2 : Int) - r.den.log2 - 1) * 2 ^ (r.den.log2 + 1 : Int) := by gcongr
      _ = 2 ^ (r.num.log2 : Int) := by rw [← zpow_add₀ two_ne_zero]; congr 1; ring
      _ ≤ r.num := numLow
  · calc (r.num : ℚ)
      _ < 2 ^ (r.num.log2 + 1 : Int) := numHigh
      _ = 2 ^ ((r.num.log2 : Int) - r.den.log2 + 1) * 2 ^ (r.den.log2 : Int) := by
        rw [← zpow_add₀ two_ne_zero]; congr 1; ring
      _ ≤ 2 ^ ((r.num.log2 : Int) - r.den.log2 + 1) * r.den := by gcongr

theorem floorLog2_eq (positive : 0 < r.den) (nonzero : r.num ≠ 0) :
    r.floorLog2 = Int.log 2 r.toRat := by
  obtain ⟨low, high⟩ := log2_bounds positive nonzero
  have compare := le_iff (a := (ofNat 1).scale 2 ((r.num.log2 : Int) - r.den.log2)) (b := r)
    (den_scale_pos (den_ofNat_pos 1) two_pos _) positive
  rw [toRat_scale, toRat_ofNat, Nat.cast_one, one_mul, Nat.cast_ofNat] at compare
  simp only [floorLog2]
  split
  next reached => exact (log_eq_of_bounds one_lt_two (compare.mp reached) high).symm
  next missed =>
    refine (log_eq_of_bounds one_lt_two low.le ?_).symm
    rw [sub_add_cancel]
    exact not_le.mp (mt compare.mpr missed)

-- From one upwards the digits of the whole part count, and below one those of the inverse.
theorem floorLog10_of_le (positive : 0 < r.den) (large : r.den ≤ r.num) :
    r.floorLog10 = Int.log 10 r.toRat := by
  obtain ⟨k, count, low, high⟩ := exists_digitCount_eq (Nat.div_pos large positive).ne'
  have floorLow : (r.floor : ℚ) ≤ r.toRat := by
    rw [floor_eq]
    exact Nat.floor_le (by unfold toRat; positivity)
  have floorHigh : r.toRat < (r.floor + 1 : Nat) := by
    rw [floor_eq]
    exact_mod_cast Nat.lt_floor_add_one r.toRat
  rw [floorLog10, if_pos large, floor, count]
  refine (log_eq_of_bounds (by decide) (le_trans ?_ floorLow) (floorHigh.trans_le ?_)).symm
  · simpa using (by exact_mod_cast low : (10 : ℚ) ^ k ≤ r.floor)
  · rw [sub_add_cancel, zpow_natCast]
    exact_mod_cast high

theorem floorLog10_of_lt (positive : 0 < r.den) (nonzero : r.num ≠ 0) (small : r.num < r.den) :
    r.floorLog10 = Int.log 10 r.toRat := by
  have num := Nat.pos_of_ne_zero nonzero
  have den : (0 : ℚ) < r.den := Nat.cast_pos.mpr positive
  obtain ⟨k, count, low, high⟩ :=
    exists_digitCount_eq (Nat.div_pos (Nat.le_sub_one_of_lt small) num).ne'
  have low := (Nat.le_div_iff_mul_le num).mp low
  have high := (Nat.div_lt_iff_lt_mul num).mp high
  rw [floorLog10, if_neg (not_le.mpr small), count]
  refine (log_eq_of_bounds (by decide) ?_ ?_).symm
  · have bound : (r.den : ℚ) ≤ 10 ^ (k + 1) * r.num := by exact_mod_cast Nat.le_of_pred_lt high
    rw [toRat, le_div_iff₀ den, Nat.cast_ofNat, zpow_neg, zpow_natCast,
      inv_mul_le_iff₀ (by positivity)]
    exact bound
  · have bound : (10 ^ k * r.num : ℚ) < r.den := by exact_mod_cast (by omega)
    have exponent : -((k + 1 : Nat) : Int) + 1 = -(k : Int) := by omega
    rw [toRat, div_lt_iff₀ den, Nat.cast_ofNat, exponent, zpow_neg, zpow_natCast,
      lt_inv_mul_iff₀ (by positivity)]
    exact bound

theorem floorLog10_eq (positive : 0 < r.den) (nonzero : r.num ≠ 0) :
    r.floorLog10 = Int.log 10 r.toRat :=
  (Nat.lt_or_ge r.num r.den).elim (floorLog10_of_lt positive nonzero) (floorLog10_of_le positive)

end ExprGraph.Ratio
