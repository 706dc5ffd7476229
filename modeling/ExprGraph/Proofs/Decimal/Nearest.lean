import ExprGraph.Decimal.Reader
import ExprGraph.Proofs.Decimal.RoundTrip
import ExprGraph.Proofs.Ieee.Nearest

set_option autoImplicit false

namespace ExprGraph

open Ieee (binary64 Rounds)

namespace Decimal

theorem rounds_round (d : Decimal) : Rounds d.toRatio.toRat (d.round binary64) := by
  by_cases zero : d.coefficient = 0
  · have nothing : d.toRatio.toRat = 0 := by simp [toRat_toRatio, zero]
    rw [round, if_pos (.inl zero), nothing]
    exact Ieee.rounds_zero (by positivity)
  · obtain ⟨k, count, low, high⟩ := Ratio.exists_digitCount_eq zero
    have unit : (0 : ℚ) < 10 ^ d.exponent := zpow_pos (by norm_num) _
    simp only [round, zero, false_or, count]
    split
    next small =>
      apply Ieee.rounds_zero
      have power : (2 : ℚ) ^ (1200 : Int) ≤ 10 ^ (400 : Int) := two_zpow_le_ten_zpow
      calc d.toRatio.toRat
        _ = d.coefficient * 10 ^ d.exponent := toRat_toRatio d
        _ < 10 ^ ((k + 1 : Nat) : Int) * 10 ^ d.exponent := by
          apply mul_lt_mul_of_pos_right _ unit
          exact_mod_cast high
        _ = (10 : ℚ) ^ ((k + 1 : Nat) + d.exponent) := (zpow_add₀ (by norm_num) _ _).symm
        _ ≤ (10 : ℚ) ^ (-400 : Int) := zpow_le_zpow_right₀ (by norm_num) (by omega)
        _ ≤ (2 : ℚ) ^ (-1200 : Int) := by
          rw [zpow_neg, zpow_neg]
          exact inv_anti₀ (by positivity) power
        _ ≤ (2 : ℚ) ^ (-1075 : Int) := zpow_le_zpow_right₀ one_le_two (by norm_num)
    next =>
      split
      next large =>
        apply Ieee.rounds_infinity
        calc (2 : ℚ) ^ (1024 : Int)
          _ ≤ 2 ^ (1200 : Int) := zpow_le_zpow_right₀ one_le_two (by norm_num)
          _ ≤ 10 ^ (400 : Int) := two_zpow_le_ten_zpow
          _ ≤ 10 ^ (k + d.exponent) := zpow_le_zpow_right₀ (by norm_num) (by omega)
          _ = 10 ^ (k : Int) * 10 ^ d.exponent := zpow_add₀ (by norm_num) _ _
          _ ≤ d.coefficient * 10 ^ d.exponent := by
            apply mul_le_mul_of_nonneg_right _ unit.le
            exact_mod_cast low
          _ = d.toRatio.toRat := (toRat_toRatio d).symm
      next => exact Ieee.rounds_round (den_toRatio_pos d)

theorem abridge_of_le {d : Decimal} {limit : Nat} (short : Ratio.digitCount d.coefficient ≤ limit) :
    d.abridge limit = d := by
  rw [abridge, Nat.sub_eq_zero_of_le short]

theorem ofDigitChars_lt {digits : List Char} (isDigits : IsDigits digits) :
    Nat.ofDigitChars 10 digits 0 < 10 ^ digits.length := by
  induction digits with
  | nil => simp
  | cons c digits ih =>
    obtain ⟨digit, later⟩ := List.forall_mem_cons.mp isDigits
    have rest := ih later
    have nine : c.toNat - '0'.toNat ≤ 9 := by
      simp [Char.isDigit, UInt32.le_iff_toNat_le, ← Char.toNat_val] at digit ⊢
      omega
    rw [Nat.ofDigitChars_cons, Nat.ofDigitChars_eq_ofDigitChars_zero, Nat.mul_zero, Nat.zero_add,
      List.length_cons, pow_succ]
    have scaled := Nat.mul_le_mul_left (10 ^ digits.length) nine
    omega

theorem abridge_ofParts {whole fraction : List Char} {limit : Nat} (wholeDigits : IsDigits whole)
    (fractionDigits : IsDigits fraction) (few : whole.length + fraction.length ≤ limit)
    (exponent : Int) :
    (ofParts whole fraction exponent).abridge limit = ofParts whole fraction exponent := by
  obtain ⟨zeros, split⟩ := exists_eq_trimmed_append fraction
  have trimmed : IsDigits (fraction.reverse.dropWhile (· = '0')).reverse := fun c member =>
    fractionDigits c (split ▸ List.mem_append_left _ member)
  have shorter := congrArg List.length split
  rw [List.length_append] at shorter
  apply abridge_of_le
  apply Ratio.digitCount_le_iff.mpr
  apply (ofDigitChars_lt (wholeDigits.append trimmed)).trans_le
  apply Nat.pow_le_pow_right (by norm_num)
  rw [List.length_append]
  omega

end Decimal

end ExprGraph
