import ExprGraph.Proofs.Decimal.Reading
import ExprGraph.Proofs.Ieee.Bits

set_option autoImplicit false

namespace ExprGraph.Decimal

open Ieee (binary64)

variable {m bits : Nat} {e : Int} {d : Decimal} {c : Char}

theorem two_zpow_le_ten_zpow : (2 : ℚ) ^ (1200 : Int) ≤ 10 ^ (400 : Int) := by
  have cube : (2 : ℚ) ^ (1200 : Int) = (2 ^ (3 : Int)) ^ (400 : Int) := by rw [← zpow_mul]; rfl
  rw [cube]
  exact zpow_le_zpow_left₀ (by decide) (by positivity) (by norm_num)

-- The powers that are not computed are far from every float.
theorem round_eq (format : Ieee.Format) (low : (10 : ℚ) ^ (-400 : Int) ≤ d.toRatio.toRat)
    (high : d.toRatio.toRat < (10 : ℚ) ^ (400 : Int)) :
    d.round format = format.round d.toRatio := by
  have nonzero : d.coefficient ≠ 0 := by
    intro zero
    have positive : (0 : ℚ) < 10 ^ (-400 : Int) := zpow_pos (by norm_num) _
    rw [toRat_toRatio, zero, Nat.cast_zero, zero_mul] at low
    linarith
  obtain ⟨k, count, least, greatest⟩ := Ratio.exists_digitCount_eq nonzero
  have unit : (0 : ℚ) < 10 ^ d.exponent := zpow_pos (by norm_num) _
  have above : d.toRatio.toRat < (10 : ℚ) ^ (d.exponent + (k + 1 : Nat)) := by
    have : (d.coefficient : ℚ) < 10 ^ (k + 1) := by exact_mod_cast greatest
    rw [toRat_toRatio, zpow_add₀ (by norm_num), zpow_natCast, mul_comm]
    gcongr
  have below : (10 : ℚ) ^ (d.exponent + k) ≤ d.toRatio.toRat := by
    have : (10 : ℚ) ^ k ≤ d.coefficient := by exact_mod_cast least
    rw [toRat_toRatio, zpow_add₀ (by norm_num), zpow_natCast, mul_comm]
    gcongr
  have lower := (zpow_lt_zpow_iff_right₀ (by norm_num)).mp (low.trans_lt above)
  have upper := (zpow_lt_zpow_iff_right₀ (by norm_num)).mp (below.trans_lt high)
  simp only [round, count]
  rw [if_neg (by omega), if_neg (by omega)]

theorem range_of_contains (holds : binary64.Holds m e) (nonzero : m ≠ 0)
    (finite : binary64.encode m e < binary64.infinity)
    (near : (Neighbourhood.ofFinite binary64 m e).contains d.toRatio) :
    (10 : ℚ) ^ (-400 : Int) ≤ d.toRatio.toRat ∧ d.toRatio.toRat < (10 : ℚ) ^ (400 : Int) := by
  have positive := den_toRatio_pos d
  have unit : (0 : ℚ) < 2 ^ e := zpow_pos two_pos e
  have exponentLow : -1074 ≤ e := holds.exponent
  have exponentHigh : e ≤ 971 := Ieee.exponent_le_of_encode_lt holds finite
  have reach := Neighbourhood.reach_le binary64 m e
  have one : (1 : ℚ) ≤ m := by exact_mod_cast Nat.one_le_iff_ne_zero.mpr nonzero
  have least := ((Neighbourhood.contains_iff positive nonzero).mp near).1.1
  have greatest := Neighbourhood.lt_of_contains holds positive nonzero near
  rw [Ieee.leadingBit_binary64, div_lt_iff₀ unit] at greatest
  constructor
  · calc (10 : ℚ) ^ (-400 : Int) ≤ 2 ^ (-1200 : Int) := by
          rw [zpow_neg, zpow_neg]
          exact inv_anti₀ (by positivity) two_zpow_le_ten_zpow
      _ ≤ 2 ^ (e - 1) := zpow_le_zpow_right₀ one_le_two (by omega)
      _ = 1 / 2 * 2 ^ e := by rw [zpow_sub_one₀ two_ne_zero]; ring
      _ ≤ d.toRatio.toRat := (le_div_iff₀ unit).mp (by linarith)
  · calc d.toRatio.toRat < 2 * (2 ^ 52 : Nat) * 2 ^ e := greatest
      _ = 2 ^ (e + 53) := by rw [zpow_add₀ two_ne_zero]; norm_num; ring
      _ ≤ 2 ^ (1200 : Int) := zpow_le_zpow_right₀ one_le_two (by omega)
      _ ≤ (10 : ℚ) ^ (400 : Int) := two_zpow_le_ten_zpow

theorem round_of_contains (holds : binary64.Holds m e) (nonzero : m ≠ 0)
    (finite : binary64.encode m e < binary64.infinity)
    (near : (Neighbourhood.ofFinite binary64 m e).contains d.toRatio) :
    d.round binary64 = binary64.encode m e := by
  obtain ⟨low, high⟩ := range_of_contains holds nonzero finite near
  rw [round_eq binary64 low high]
  exact Ieee.Format.round_of_contains holds nonzero finite.le (den_toRatio_pos d) near

theorem toLower_of_isDigit (digit : c.isDigit) : c.toLower = c := by
  simp only [Char.isDigit, Bool.and_eq_true, decide_eq_true_eq] at digit
  have small : c.val < 'A'.val := UInt32.lt_of_le_of_lt digit.2 (by decide)
  rw [Char.toLower, dif_neg fun upper => UInt32.not_le.mpr small upper.1]

-- The words begin with a letter.
theorem readMagnitude?_of_isDigit (format : Ieee.Format) (digit : c.isDigit) (rest : List Char) :
    readMagnitude? format (c :: rest) = (read? (c :: rest)).map (round format) := by
  have word (w : Char) (ws : List Char) (letter : w.isDigit = false) :
      String.ofList ((c :: rest).map Char.toLower) ≠ String.ofList (w :: ws) := by
    intro same
    have first : c.toLower = w := (List.cons.inj (String.ofList_inj.mp same)).1
    rw [toLower_of_isDigit digit] at first
    rw [first, letter] at digit
    contradiction
  have inf := word 'i' ['n', 'f'] rfl
  have infinity := word 'i' ['n', 'f', 'i', 'n', 'i', 't', 'y'] rfl
  have nan := word 'n' ['a', 'n'] rfl
  rw [readMagnitude?, if_neg (not_or.mpr ⟨inf, infinity⟩), if_neg nan]

theorem readMagnitude?_writeMagnitude (layout : Layout) (bound : bits ≤ binary64.infinity) :
    readMagnitude? binary64 (layout.writeMagnitude (binary64.decode bits)) = some bits := by
  rcases Nat.lt_or_eq_of_le bound with finite | rfl
  · obtain ⟨m, e, decoded, holds, rfl⟩ := Ieee.Format.exists_decode_eq finite
    rw [decoded]
    cases m with
    | zero =>
      have least : e = binary64.minExponent := by
        by_contra other
        have leading := holds.leading (lt_of_le_of_ne holds.exponent (Ne.symm other))
        exact absurd leading (not_le.mpr binary64.leadingBit_pos)
      rw [least, Layout.writeMagnitude]
      split <;> rfl
    | succ k =>
      obtain ⟨read, reads, value⟩ := layout.readsAs_writeDecimal (shortest (k + 1) e)
      obtain ⟨c, rest, text, digit⟩ := layout.exists_isDigit_writeDecimal (shortest (k + 1) e)
      have near := Neighbourhood.contains_congr k.succ_ne_zero (den_toRatio_pos _)
        (den_toRatio_pos _) value.symm (contains_shortest holds k.succ_ne_zero)
      rw [text] at reads
      rw [Layout.writeMagnitude, text, readMagnitude?_of_isDigit _ digit, reads, Option.map_some,
        round_of_contains holds k.succ_ne_zero finite near]
      simp
  · rw [Ieee.decode_infinity]
    rfl

theorem readFloat?_write_nan {x : Float} (layout : Layout)
    (nan : binary64.infinity < x.toBits.toNat % binary64.signBit) :
    readFloat? (layout.write x) = some x := by
  have magnitude : Ieee.magnitude x = .nan :=
    Ieee.decode_of_infinity_lt nan (Nat.mod_lt _ (by decide))
  have written : layout.write x = "NaN" := by
    simp [Layout.write, magnitude, Layout.writeMagnitude]
  have same : Ieee.toFloat false binary64.nan = x := by
    rw [← Ieee.toBits_of_nan nan, Ieee.toFloat, if_neg Bool.false_ne_true, UInt64.ofNat_toNat,
      Float.ofBits_toBits]
  rw [written]
  exact congrArg some same

theorem splitSign_signed {text : List Char} (negative : Bool)
    (first : c.isDigit ∨ c = 'i' ∨ c = 'N') :
    splitSign (if negative then '-' :: c :: text else c :: text) = (negative, c :: text) := by
  cases negative with
  | true => rfl
  | false =>
    rcases first with digit | rfl | rfl
    · exact splitSign_of_isDigit digit text
    · rfl
    · rfl

theorem readFloat?_write (layout : Layout) (x : Float) : readFloat? (layout.write x) = some x := by
  rcases Nat.lt_or_ge binary64.infinity (x.toBits.toNat % binary64.signBit) with nan | number
  · exact readFloat?_write_nan layout nan
  · have reads := readMagnitude?_writeMagnitude layout number
    obtain ⟨c, rest, text, first⟩ := layout.exists_writeMagnitude_eq (Ieee.magnitude x)
    have defined : (Ieee.magnitude x != .nan) = true :=
      bne_iff_ne.mpr (Ieee.decode_ne_nan number)
    have written : layout.write x =
        .ofList (if Ieee.isNegative x then '-' :: c :: rest else c :: rest) := by
      rw [Layout.write, defined, Bool.and_true, text]
    rw [Ieee.magnitude] at text
    rw [text] at reads
    simp only [readFloat?, written, String.toList_ofList, splitSign_signed _ first, reads,
      Option.map_some, Ieee.toFloat_split]

end ExprGraph.Decimal
