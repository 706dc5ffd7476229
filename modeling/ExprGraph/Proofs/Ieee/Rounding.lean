import ExprGraph.Decimal.Shortest
import ExprGraph.Proofs.Decimal.Ratio
import ExprGraph.Proofs.Ieee.Bits

set_option autoImplicit false

namespace ExprGraph

namespace Decimal.Neighbourhood

variable {format : Ieee.Format} {m : Nat} {e : Int} {r : Ratio}

def reach (format : Ieee.Format) (m : Nat) (e : Int) : ℚ :=
  if m = format.leadingBit ∧ format.minExponent < e then 1 / 4 else 1 / 2

theorem reach_le (format : Ieee.Format) (m : Nat) (e : Int) : reach format m e ≤ 1 / 2 := by
  unfold reach
  split <;> norm_num

theorem toRat_quarters (n : Nat) (e : Int) :
    ((Ratio.ofNat n).scale 2 (e - 2)).toRat = n / 4 * 2 ^ e := by
  rw [Ratio.toRat_scale, Ratio.toRat_ofNat, Nat.cast_ofNat, zpow_sub₀ two_ne_zero]
  ring

theorem toRat_low (format : Ieee.Format) (nonzero : m ≠ 0) (e : Int) :
    (ofFinite format m e).low.toRat = (m - reach format m e) * 2 ^ e := by
  rw [ofFinite, toRat_quarters, reach]
  congr 1
  by_cases narrow : m = format.leadingBit ∧ format.minExponent < e
  · rw [if_pos narrow, if_pos (by simpa using narrow), Nat.cast_sub (by omega)]
    push_cast
    ring
  · rw [if_neg narrow, if_neg (by simpa using narrow), Nat.cast_sub (by omega)]
    push_cast
    ring

theorem toRat_value (format : Ieee.Format) (m : Nat) (e : Int) :
    (ofFinite format m e).value.toRat = m * 2 ^ e := by
  rw [ofFinite, toRat_quarters]
  push_cast
  ring

theorem toRat_high (format : Ieee.Format) (m : Nat) (e : Int) :
    (ofFinite format m e).high.toRat = (m + 1 / 2) * 2 ^ e := by
  rw [ofFinite, toRat_quarters]
  push_cast
  ring

theorem contains_iff (positive : 0 < r.den) (nonzero : m ≠ 0) :
    (ofFinite format m e).contains r ↔
      (m - reach format m e ≤ r.toRat / 2 ^ e ∧ r.toRat / 2 ^ e ≤ m + 1 / 2) ∧
      (m % 2 = 1 → m - reach format m e < r.toRat / 2 ^ e ∧ r.toRat / 2 ^ e < m + 1 / 2) := by
  have unit : (0 : ℚ) < 2 ^ e := zpow_pos two_pos e
  have lowDen : 0 < (ofFinite format m e).low.den :=
    Ratio.den_scale_pos (Ratio.den_ofNat_pos _) two_pos _
  have highDen : 0 < (ofFinite format m e).high.den :=
    Ratio.den_scale_pos (Ratio.den_ofNat_pos _) two_pos _
  rw [le_div_iff₀ unit, div_le_iff₀ unit, lt_div_iff₀ unit, div_lt_iff₀ unit,
    ← toRat_low format nonzero, ← toRat_high format m]
  rcases Nat.mod_two_eq_zero_or_one m with even | odd
  · have closed : (ofFinite format m e).closed := by simpa [ofFinite] using even
    simp [contains, closed, even, Ratio.le_iff, positive, lowDen, highDen]
  · have opened : (ofFinite format m e).closed = false := by simpa [ofFinite] using odd
    simp only [contains, opened, odd, Bool.false_eq_true, if_false, Bool.and_eq_true,
      Ratio.lt_iff lowDen positive, Ratio.lt_iff positive highDen, true_imp_iff]
    exact ⟨fun inside => ⟨⟨inside.1.le, inside.2.le⟩, inside⟩, fun inside => inside.2⟩

theorem contains_congr {s : Ratio} (nonzero : m ≠ 0) (left : 0 < r.den) (right : 0 < s.den)
    (same : r.toRat = s.toRat) (near : (ofFinite format m e).contains r) :
    (ofFinite format m e).contains s := by
  rw [contains_iff left nonzero, same] at near
  exact (contains_iff right nonzero).mpr near

theorem pos_of_contains (positive : 0 < r.den) (nonzero : m ≠ 0)
    (near : (ofFinite format m e).contains r) : 0 < r.toRat := by
  have unit : (0 : ℚ) < 2 ^ e := zpow_pos two_pos e
  have one : (1 : ℚ) ≤ m := by exact_mod_cast Nat.one_le_iff_ne_zero.mpr nonzero
  have low := ((contains_iff positive nonzero).mp near).1.1
  have reach := reach_le format m e
  exact (div_pos_iff_of_pos_right unit).mp (by linarith)

-- The largest mantissa is odd, so no neighbourhood reaches the next power of two.
theorem lt_of_contains (holds : format.Holds m e) (positive : 0 < r.den) (nonzero : m ≠ 0)
    (near : (ofFinite format m e).contains r) : r.toRat / 2 ^ e < 2 * format.leadingBit := by
  obtain ⟨⟨_, high⟩, inside⟩ := (contains_iff positive nonzero).mp near
  have mantissa := holds.mantissa
  rcases Nat.lt_or_ge (m + 1) (2 * format.leadingBit) with inner | last
  · have : (m + 1 : ℚ) < 2 * format.leadingBit := by exact_mod_cast inner
    linarith
  · have : (m + 1 : ℚ) = 2 * format.leadingBit := by exact_mod_cast (by omega)
    have := (inside (by omega)).2
    linarith

end Decimal.Neighbourhood

namespace Ieee.Format

open Decimal (Neighbourhood)

variable {format : Format} {m n : Nat} {e k : Int} {r : Ratio}

theorem zpow_leadingBit (format : Format) (e k : Int) :
    (2 : ℚ) ^ (e + (format.precision - 1 : Nat) + k) = format.leadingBit * 2 ^ k * 2 ^ e := by
  rw [leadingBit_eq, Nat.cast_pow, Nat.cast_ofNat, ← zpow_natCast, ← zpow_add₀ two_ne_zero,
    ← zpow_add₀ two_ne_zero]
  congr 1
  ring

theorem toRat_scale_neg (r : Ratio) (k : Int) : (r.scale 2 (-k)).toRat = r.toRat / 2 ^ k := by
  rw [Ratio.toRat_scale, Nat.cast_ofNat, zpow_neg, div_eq_mul_inv]

theorem round_eq (positive : 0 < r.den) (nonzero : r.num ≠ 0)
    (exponent : max format.minExponent (Int.log 2 r.toRat - (format.precision - 1 : Nat)) = k)
    (nearest : (r.scale 2 (-k)).nearestEven = n) (finite : format.encode n k ≤ format.infinity) :
    format.round r = format.encode n k := by
  simp only [round, if_neg nonzero, Ratio.floorLog2_eq positive nonzero, exponent, nearest]
  exact min_eq_right finite

variable (holds : format.Holds m e) (nonzero : m ≠ 0)
  (finite : format.encode m e ≤ format.infinity) (positive : 0 < r.den)
  (near : (Neighbourhood.ofFinite format m e).contains r)

include holds nonzero finite positive near

theorem round_in_binade
    (binade : e = format.minExponent ∨ (format.leadingBit : ℚ) ≤ r.toRat / 2 ^ e) :
    format.round r = format.encode m e := by
  obtain ⟨⟨low, high⟩, inside⟩ := (Neighbourhood.contains_iff positive nonzero).mp near
  have unit : (0 : ℚ) < 2 ^ e := zpow_pos two_pos e
  have valuePos := Neighbourhood.pos_of_contains positive nonzero near
  have reach := Neighbourhood.reach_le format m e
  have exponent :
      max format.minExponent (Int.log 2 r.toRat - (format.precision - 1 : Nat)) = e := by
    have top := Neighbourhood.lt_of_contains holds positive nonzero near
    have highest : r.toRat < (2 : ℚ) ^ (e + (format.precision - 1 : Nat) + 1) := by
      rw [zpow_leadingBit, zpow_one, mul_comm (format.leadingBit : ℚ) 2]
      exact (div_lt_iff₀ unit).mp top
    have notAbove := (Int.lt_zpow_iff_log_lt one_lt_two valuePos).mp highest
    rcases binade with least | leading
    · omega
    · have lowest : (2 : ℚ) ^ (e + (format.precision - 1 : Nat) + 0) ≤ r.toRat := by
        rw [zpow_leadingBit, zpow_zero, mul_one]
        exact (le_div_iff₀ unit).mp leading
      have notBelow := (Int.zpow_le_iff_le_log one_lt_two valuePos).mp lowest
      have least := holds.exponent
      omega
  have scaled := toRat_scale_neg r e
  refine round_eq positive ((Ratio.toRat_pos_iff positive).mp valuePos) exponent ?_ finite
  refine Ratio.nearestEven_eq (Ratio.den_scale_pos positive two_pos _) ?_ ?_ fun odd => ?_
  · linarith
  · rwa [scaled]
  · have strict := inside odd
    rw [scaled]
    exact ⟨by linarith, strict.2⟩

-- Numbers below a power of two have smaller units, and round to a mantissa that carries.
theorem round_below_binade (exponent : format.minExponent < e)
    (below : r.toRat / 2 ^ e < format.leadingBit) : format.round r = format.encode m e := by
  obtain ⟨⟨low, high⟩, _⟩ := (Neighbourhood.contains_iff positive nonzero).mp near
  have unit : (0 : ℚ) < 2 ^ e := zpow_pos two_pos e
  have valuePos := Neighbourhood.pos_of_contains positive nonzero near
  have leading : (1 : ℚ) ≤ format.leadingBit := by exact_mod_cast format.leadingBit_pos
  obtain rfl : m = format.leadingBit := by
    refine le_antisymm (not_lt.mp fun more => ?_) (holds.leading exponent)
    have : (format.leadingBit + 1 : ℚ) ≤ m := by exact_mod_cast more
    have reach := Neighbourhood.reach_le format m e
    linarith
  have reach : Neighbourhood.reach format format.leadingBit e = 1 / 4 := if_pos ⟨rfl, exponent⟩
  have log : Int.log 2 r.toRat = e + (format.precision - 1 : Nat) + -1 := by
    refine Ratio.log_eq_of_bounds one_lt_two ?_ ?_
    · rw [Nat.cast_ofNat, zpow_leadingBit]
      exact (le_div_iff₀ unit).mp (by linarith)
    · rw [Nat.cast_ofNat, neg_add_cancel_right, ← add_zero (e + _), zpow_leadingBit, zpow_zero,
        mul_one]
      exact (div_lt_iff₀ unit).mp below
  have carries : format.encode (2 * format.leadingBit) (e - 1) =
      format.encode format.leadingBit e := by
    obtain ⟨k, field⟩ := Int.le.dest (Int.add_one_le_iff.mpr exponent)
    have first : (e - 1 - format.minExponent).toNat = k := by omega
    have second : (e - format.minExponent).toNat = k + 1 := by omega
    rw [encode, encode, first, second]
    ring
  have scaled : (r.scale 2 (-(e - 1))).toRat = 2 * (r.toRat / 2 ^ e) := by
    rw [toRat_scale_neg, zpow_sub_one₀ two_ne_zero]
    field_simp
  rw [← carries] at finite ⊢
  refine round_eq positive ((Ratio.toRat_pos_iff positive).mp valuePos) (by omega) ?_ finite
  refine Ratio.nearestEven_eq (Ratio.den_scale_pos positive two_pos _) ?_ ?_ (by omega) <;>
  · rw [scaled]
    push_cast
    linarith

theorem round_of_contains : format.round r = format.encode m e := by
  by_cases binade : e = format.minExponent ∨ (format.leadingBit : ℚ) ≤ r.toRat / 2 ^ e
  · exact round_in_binade holds nonzero finite positive near binade
  · obtain ⟨exponent, below⟩ := not_or.mp binade
    exact round_below_binade holds nonzero finite positive near
      (lt_of_le_of_ne holds.exponent (Ne.symm exponent)) (not_le.mp below)

end Ieee.Format

end ExprGraph
