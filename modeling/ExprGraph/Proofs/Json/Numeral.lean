import ExprGraph.Proofs.Json.Library

set_option autoImplicit false

namespace ExprGraph

open Ieee (Rounds binary64)

theorem Ieee.ofInt_of_rounds {n bits : Nat} (rounds : Rounds n bits) :
    ofInt n = toFloat false bits := by
  have word : Rounds n (binary64.round (.ofNat n)) := by
    simpa using rounds_round (Ratio.den_ofNat_pos n)
  have positive : ¬ (n : Int) < 0 := by omega
  rw [ofInt, Int.natAbs_natCast, rounds.unique word, decide_eq_false positive]

theorem Ieee.ne_infinity_of_finite {negative : Bool} {bits : Nat}
    (finite : isFinite (toFloat negative bits)) : bits ≠ binary64.infinity := by
  rintro rfl
  have infinite : isFinite (toFloat negative binary64.infinity) = false := by
    cases negative <;> decide
  rw [infinite] at finite
  contradiction

namespace Json

theorem Trailing.unique {cs fraction other : List Char} {d e : Int}
    (first : Trailing cs fraction d) (second : Trailing cs other e) :
    fraction = other ∧ d = e := by
  have noPoint {mark rest : List Char} {k : Int} (marked : Decimal.ExponentText mark k) :
      mark ≠ '.' :: rest := by
    rintro rfl
    rcases marked.head '.' rfl with same | same <;> contradiction
  generalize line : cs = text at second
  obtain ⟨pointed, -, marked⟩ := first
  obtain ⟨otherPointed, -, otherMarked⟩ := second
  cases pointed with
  | none =>
    cases otherPointed with
    | none =>
      obtain rfl := line
      exact ⟨rfl, marked.unique otherMarked⟩
    | point => exact absurd line (noPoint marked)
  | point digits =>
    cases otherPointed with
    | none => exact absurd line.symm (noPoint otherMarked)
    | point otherDigits =>
      obtain ⟨rfl, rfl⟩ := digits.append_inj otherDigits marked.head_not_digit
        otherMarked.head_not_digit (List.cons.inj line).2
      exact ⟨rfl, marked.unique otherMarked⟩

theorem trailing_nil : Trailing [] [] 0 := .intro .none (by simp) .none

theorem eq_zero_of_toDigits {n : Nat} (zero : Nat.toDigits 10 n = ['0']) : n = 0 := by
  have value := congrArg (Nat.ofDigitChars 10 · 0) zero
  rw [Nat.ofDigitChars_ten_toDigits] at value
  exact value

theorem leading_toDigits (n : Nat) : Leading (Nat.toDigits 10 n) := by
  constructor
  · exact Decimal.isDigits_toDigits n
  · exact Nat.toDigits_ne_nil
  · induction n using Nat.base_induction 10 (by decide) with
    | single n small => simp [Nat.toDigits_of_lt_base small]
    | digit n last small positive ih =>
      intro zero
      rw [← Nat.toDigits_append_toDigits (by decide) positive small,
        List.head?_append_of_ne_nil _ Nat.toDigits_ne_nil] at zero
      exact absurd (eq_zero_of_toDigits (ih zero)) positive.ne'

namespace Numeral

variable {numeral : Numeral} {cs : List Char} {content : Content}

theorem Spells.leading (spells : Spells cs numeral) : Leading numeral.whole := by
  obtain ⟨-, leading, -⟩ := spells
  exact leading

theorem Spells.unique {other : Numeral} (first : Spells cs numeral) (second : Spells cs other) :
    numeral = other := by
  generalize line : cs = text at second
  obtain ⟨signed, leading, trailing⟩ := first
  obtain ⟨otherSigned, otherLeading, otherTrailing⟩ := second
  have parts := congrArg Decimal.splitSign line
  rw [leading.splitSign_append signed.sign, otherLeading.splitSign_append otherSigned.sign] at parts
  obtain ⟨rfl, same⟩ := Prod.mk.inj parts
  obtain ⟨rfl, rfl⟩ := leading.digits.append_inj otherLeading.digits
    trailing.head_not_digit otherTrailing.head_not_digit same
  obtain ⟨rfl, rfl⟩ := trailing.unique otherTrailing
  rfl

theorem Spells.value_of_integral (spells : Spells cs numeral) (integral : numeral.integral) :
    numeral.value = Nat.ofDigitChars 10 numeral.whole 0 := by
  obtain ⟨-, -, trailing⟩ := spells
  obtain rfl := of_decide_eq_true integral
  obtain ⟨rfl, rfl⟩ := trailing.unique trailing_nil
  simp [value]

theorem word?_of_fractional (fractional : numeral.integral = false) : numeral.word? = none := by
  simp [word?, fractional]

theorem exists_rounds (numeral : Numeral) : ∃ bits, Rounds numeral.value bits :=
  (Decimal.Spelling.number numeral.whole numeral.fraction numeral.exponent).exists_denotes

theorem exists_word_of_isInteger (spells : Spells cs numeral) (integer : numeral.IsInteger) :
    ∃ content, numeral.word? = some content ∧
      Literal.offered content = some (.int (.ofInt numeral.toInt)) := by
  obtain ⟨integral, least, greatest, notNegativeZero⟩ := integer
  rw [← spells.leading.ofDigitChars_eq_zero_iff] at notNegativeZero
  simp only [toInt] at least greatest ⊢
  simp only [word?, integral, true_and]
  generalize Nat.ofDigitChars 10 numeral.whole 0 = n at *
  cases negative : numeral.negative with
  | false =>
    simp only [negative, Bool.false_eq_true, if_false] at greatest ⊢
    have fits : n < 2 ^ 63 := by omega
    have word : n < 2 ^ 64 := fits.trans (by norm_num)
    have same : (UInt64.ofNat n).toNat = n := UInt64.toNat_ofNat_of_lt' word
    refine ⟨.unsigned (.ofNat n), if_pos ⟨not_false, word⟩, ?_⟩
    simp only [Literal.offered, same, if_pos fits, Int64.ofInt_eq_ofNat]
  | true =>
    simp only [negative, if_true, true_and] at least notNegativeZero ⊢
    refine ⟨.signed (.ofInt (-n)), ?_, rfl⟩
    rw [if_neg (by simp), if_pos ⟨notNegativeZero, by omega⟩]

-- Any other word is a natural number that takes all 64 bits.
theorem offered_of_not_isInteger (spells : Spells cs numeral) (word : numeral.word? = some content)
    (noInteger : ¬ numeral.IsInteger) :
    numeral.negative = false ∧ numeral.integral ∧ Nat.ofDigitChars 10 numeral.whole 0 < 2 ^ 64 ∧
      Literal.offered content =
        some (.float (Ieee.ofInt (Nat.ofDigitChars 10 numeral.whole 0))) := by
  simp only [IsInteger, ← spells.leading.ofDigitChars_eq_zero_iff, toInt] at noInteger
  simp only [word?] at word
  generalize Nat.ofDigitChars 10 numeral.whole 0 = n at *
  split at word
  next natural =>
    obtain ⟨integral, positive, fits⟩ := natural
    have negative : numeral.negative = false := by simpa using positive
    have large : ¬ n < 2 ^ 63 := by
      intro small
      simp [integral, negative] at noInteger
      omega
    have same : (UInt64.ofNat n).toNat = n := UInt64.toNat_ofNat_of_lt' fits
    obtain rfl := Option.some.inj word
    refine ⟨negative, integral, fits, ?_⟩
    simp only [Literal.offered, same, if_neg large]
  next =>
    obtain ⟨⟨integral, negative, nonzero, fits⟩, -⟩ := Option.ite_none_right_eq_some.mp word
    simp [integral, negative, nonzero] at noInteger
    omega

theorem offered_of_rounds {bits : Nat} (spells : Spells cs numeral)
    (word : numeral.word? = some content) (noInteger : ¬ numeral.IsInteger)
    (rounds : Rounds numeral.value bits) : bits ≠ binary64.infinity ∧
      Literal.offered content = some (.float (Ieee.toFloat numeral.negative bits)) := by
  obtain ⟨positive, integral, fits, offered⟩ := offered_of_not_isInteger spells word noInteger
  rw [spells.value_of_integral integral] at rounds
  constructor
  · apply ne_of_lt (rounds.lt_infinity _)
    exact_mod_cast fits.le
  · rw [offered, positive, Ieee.ofInt_of_rounds rounds]

theorem exists_spells_digits {sign : List Char} {negative : Bool} {n : Nat} {i : Int64}
    (signed : Minus sign negative) (same : i.toInt = if negative then -(n : Int) else n)
    (notNegativeZero : ¬ (negative ∧ n = 0)) : ∃ numeral : Numeral,
      numeral.Spells (sign ++ Nat.toDigits 10 n) ∧ numeral.IsInteger ∧ numeral.toInt = i.toInt := by
  have least := i.le_toInt
  have greatest := i.toInt_lt
  have spells := Spells.intro signed (leading_toDigits n) trailing_nil
  have value : toInt ⟨negative, Nat.toDigits 10 n, [], 0, true⟩ = i.toInt := by
    simp only [toInt, Nat.ofDigitChars_ten_toDigits, same]
  rw [List.append_nil] at spells
  refine ⟨_, spells, ⟨rfl, ?_, ?_, ?_⟩, value⟩
  · exact value ▸ least
  · exact value ▸ Int.le_sub_one_of_lt greatest
  · exact fun zero => notNegativeZero ⟨zero.1, eq_zero_of_toDigits zero.2⟩

theorem exists_spells_int (i : Int64) : ∃ numeral : Numeral,
    numeral.Spells (toString i.toInt).toList ∧ numeral.IsInteger ∧ numeral.toInt = i.toInt := by
  rw [Decimal.toList_toString]
  split
  next positive =>
    apply exists_spells_digits .none
    · exact (Int.toNat_of_nonneg positive).symm
    · simp
  next negative =>
    apply exists_spells_digits .minus
    · rw [if_pos rfl]
      omega
    · omega

end Numeral

end Json

end ExprGraph
