import ExprGraph.Proofs.Ieee.Rounding

set_option autoImplicit false

namespace ExprGraph.Decimal

theorem toRat_toRatio (d : Decimal) : d.toRatio.toRat = d.coefficient * 10 ^ d.exponent := by
  rw [toRatio, Ratio.toRat_scale, Ratio.toRat_ofNat, Nat.cast_ofNat]

theorem den_toRatio_pos (d : Decimal) : 0 < d.toRatio.den :=
  Ratio.den_scale_pos (Ratio.den_ofNat_pos _) (by decide) _

namespace Neighbourhood

variable {near : Neighbourhood} {format : Ieee.Format} {m : Nat} {e k : Int} {d : Decimal}

theorem contains_of_onGrid (found : near.onGrid k = some d) : near.contains d.toRatio := by
  simp only [onGrid] at found
  split at found
  next lower upper =>
    obtain rfl := Option.some.inj found
    split
    · exact lower
    · exact upper
  next lower _ => exact Option.some.inj found ▸ lower
  next _ upper => exact Option.some.inj found ▸ upper
  next => contradiction

theorem coefficient_le_of_onGrid (found : near.onGrid k = some d) :
    d.coefficient ≤ (near.value.scale 10 (-k)).floor + 1 := by
  simp only [onGrid] at found
  split at found
  next =>
    obtain rfl := Option.some.inj found
    split
    · exact Nat.le_succ _
    · exact le_rfl
  next => exact Option.some.inj found ▸ Nat.le_succ _
  next => exact Option.some.inj found ▸ le_rfl
  next => contradiction

theorem contains_of_lt {r : Ratio} (positive : 0 < r.den) (nonzero : m ≠ 0)
    (low : (m - reach format m e) * 2 ^ e < r.toRat) (high : r.toRat < (m + 1 / 2) * 2 ^ e) :
    (ofFinite format m e).contains r := by
  have unit : (0 : ℚ) < 2 ^ e := zpow_pos two_pos e
  rw [← lt_div_iff₀ unit] at low
  rw [← div_lt_iff₀ unit] at high
  exact (contains_iff positive nonzero).mpr ⟨⟨low.le, high.le⟩, fun _ => ⟨low, high⟩⟩

-- A grid that is finer than the neighbourhood has a point in it.
theorem exists_onGrid (format : Ieee.Format) (nonzero : m ≠ 0)
    (fine : (10 : ℚ) ^ k < (reach format m e + 1 / 2) * 2 ^ e) :
    ∃ d, (ofFinite format m e).onGrid k = some d := by
  have unit : (0 : ℚ) < 2 ^ e := zpow_pos two_pos e
  have grid : (0 : ℚ) < 10 ^ k := zpow_pos (by norm_num) k
  have reachPos : 0 < reach format m e := by
    unfold reach
    split <;> norm_num
  generalize floor : ((ofFinite format m e).value.scale 10 (-k)).floor = f
  have below : f * (10 : ℚ) ^ k ≤ m * 2 ^ e ∧ m * 2 ^ e < (f + 1) * (10 : ℚ) ^ k := by
    rw [← floor, Ratio.floor_eq, Ratio.toRat_scale, toRat_value, Nat.cast_ofNat, zpow_neg,
      ← div_eq_mul_inv, ← le_div_iff₀ grid, ← div_lt_iff₀ grid]
    exact ⟨Nat.floor_le (by positivity), Nat.lt_floor_add_one _⟩
  have either : (ofFinite format m e).contains (toRatio ⟨f, k⟩) ∨
      (ofFinite format m e).contains (toRatio ⟨f + 1, k⟩) := by
    rcases lt_or_ge ((m - reach format m e) * 2 ^ e) (f * (10 : ℚ) ^ k) with inside | outside
    · refine .inl (contains_of_lt (den_toRatio_pos _) nonzero ?_ ?_) <;> rw [toRat_toRatio]
      · exact inside
      · linarith
    · refine .inr (contains_of_lt (den_toRatio_pos _) nonzero ?_ ?_) <;> rw [toRat_toRatio] <;>
        push_cast
      · have := mul_pos reachPos unit
        linarith
      · linarith
  simp only [onGrid, floor]
  split <;> simp_all

end Neighbourhood

-- With seventeen digits the grid is finer than the neighbourhood of any float.
theorem seventeen_digits {m : Nat} {e : Int} (holds : Ieee.binary64.Holds m e) (nonzero : m ≠ 0) :
    (10 : ℚ) ^ (Int.log 10 (m * 2 ^ e : ℚ) + 1 - (17 : Nat)) <
      (Neighbourhood.reach Ieee.binary64 m e + 1 / 2) * 2 ^ e := by
  have power := Int.zpow_log_le_self (b := 10) (by decide) (by positivity : (0 : ℚ) < m * 2 ^ e)
  rw [Nat.cast_ofNat] at power
  have spacing : (10 : ℚ) ^ (Int.log 10 (m * 2 ^ e : ℚ) + 1 - (17 : Nat)) * 10 ^ 16 =
      10 ^ Int.log 10 (m * 2 ^ e : ℚ) := by
    rw [← zpow_natCast, ← zpow_add₀ (by norm_num)]
    congr 1
    omega
  have small : (m : ℚ) < (Neighbourhood.reach Ieee.binary64 m e + 1 / 2) * 10 ^ 16 := by
    have mantissa : (m : ℚ) < 2 ^ 53 := by exact_mod_cast holds.mantissa
    unfold Neighbourhood.reach
    split
    next narrow =>
      rw [narrow.1]
      norm_num [Ieee.Format.leadingBit_eq, Ieee.binary64]
    next =>
      norm_num at mantissa ⊢
      linarith
  refine lt_of_mul_lt_mul_right (a := 10 ^ 16) ?_ (by positivity)
  calc _ = (10 : ℚ) ^ Int.log 10 (m * 2 ^ e : ℚ) := spacing
    _ ≤ m * 2 ^ e := power
    _ < (Neighbourhood.reach Ieee.binary64 m e + 1 / 2) * 10 ^ 16 * 2 ^ e := by gcongr
    _ = (Neighbourhood.reach Ieee.binary64 m e + 1 / 2) * 2 ^ e * 10 ^ 16 := by ring

theorem floorLog10_value {m : Nat} (nonzero : m ≠ 0) (e : Int) :
    (Neighbourhood.ofFinite Ieee.binary64 m e).value.floorLog10 =
      Int.log 10 (m * 2 ^ e : ℚ) := by
  have value := Neighbourhood.toRat_value Ieee.binary64 m e
  have den : 0 < (Neighbourhood.ofFinite Ieee.binary64 m e).value.den :=
    Ratio.den_scale_pos (Ratio.den_ofNat_pos _) two_pos _
  have num := (Ratio.toRat_pos_iff den).mp (by rw [value]; positivity)
  rw [← value, Ratio.floorLog10_eq den num]

theorem contains_shortest {m : Nat} {e : Int} (holds : Ieee.binary64.Holds m e) (nonzero : m ≠ 0) :
    (Neighbourhood.ofFinite Ieee.binary64 m e).contains (shortest m e).toRatio := by
  obtain ⟨d, found⟩ :=
    Neighbourhood.exists_onGrid Ieee.binary64 nonzero (seventeen_digits holds nonzero)
  simp only [shortest, floorLog10_value nonzero]
  cases search : (List.range 18).findSome? fun digits : Nat =>
      (Neighbourhood.ofFinite Ieee.binary64 m e).onGrid
        (Int.log 10 (m * 2 ^ e : ℚ) + 1 - digits) with
  | none =>
    have missing := List.findSome?_eq_none_iff.mp search 17 (List.mem_range.mpr (by decide))
    rw [found] at missing
    contradiction
  | some best =>
    obtain ⟨digits, _, onGrid⟩ := List.exists_of_findSome?_eq_some search
    exact Neighbourhood.contains_of_onGrid onGrid

-- No more digits than that are tried.
theorem shortest_coefficient_le {m : Nat} (nonzero : m ≠ 0) (e : Int) :
    (shortest m e).coefficient ≤ 10 ^ 17 := by
  have value := Neighbourhood.toRat_value Ieee.binary64 m e
  simp only [shortest, floorLog10_value nonzero]
  cases search : (List.range 18).findSome? fun digits : Nat =>
      (Neighbourhood.ofFinite Ieee.binary64 m e).onGrid
        (Int.log 10 (m * 2 ^ e : ℚ) + 1 - digits) with
  | none => exact Nat.zero_le _
  | some best =>
    obtain ⟨digits, inside, onGrid⟩ := List.exists_of_findSome?_eq_some search
    apply (Neighbourhood.coefficient_le_of_onGrid onGrid).trans
    have few : digits ≤ 17 := Nat.lt_succ_iff.mp (List.mem_range.mp inside)
    have top := Int.lt_zpow_succ_log_self (b := 10) (by norm_num) (m * 2 ^ e : ℚ)
    rw [Nat.cast_ofNat] at top
    apply Nat.succ_le_of_lt
    rw [Ratio.floor_eq, Nat.floor_lt (by rw [Ratio.toRat_scale, value]; positivity),
      Ratio.toRat_scale, value, Nat.cast_ofNat]
    generalize Int.log 10 (m * 2 ^ e : ℚ) = log at top ⊢
    calc m * 2 ^ e * (10 : ℚ) ^ (-(log + 1 - digits))
      _ < 10 ^ (log + 1) * 10 ^ (-(log + 1 - digits)) := by gcongr
      _ = 10 ^ (digits : Int) := by
        rw [← zpow_add₀ (by norm_num)]
        congr 1
        ring
      _ ≤ (10 ^ 17 : Nat) := by
        rw [zpow_natCast]
        exact_mod_cast Nat.pow_le_pow_right (by norm_num) few

end ExprGraph.Decimal
