import ExprGraph.Proofs.Json.Survival
import ExprGraph.Proofs.Json.Writing

set_option autoImplicit false

namespace ExprGraph.Json

open Ieee (Rounds binary64)

def oddNumeral : Numeral := ⟨false, Nat.toDigits 10 9007199254740993, [], 0, false⟩

theorem spells_odd : oddNumeral.Spells "9007199254740993e-0".toList := by
  have marked := Decimal.ExponentText.marked (.inl rfl) .minus (Decimal.isDigits_toDigits 0)
    Nat.toDigits_ne_nil
  have text : "9007199254740993e-0".toList =
      [] ++ (Nat.toDigits 10 9007199254740993 ++ ([] ++ 'e' :: (['-'] ++ Nat.toDigits 10 0))) := by
    decide +kernel
  rw [text]
  exact .intro .none (leading_toDigits _) (.intro .none (by simp) marked)

-- It is in the middle of two doubles, and the first of them is even.
theorem rounds_odd : Rounds oddNumeral.value (binary64.encode (2 ^ 52) 1) := by
  have next : binary64.encode (2 ^ 52) 1 + 1 = binary64.encode (2 ^ 52 + 1) 1 := rfl
  have value : oddNumeral.value = 9007199254740993 := by
    simp [Numeral.value, oddNumeral, Nat.ofDigitChars_ten_toDigits]
  apply Ieee.rounds_middle
  · rw [next, value, Ieee.value_encode (by norm_num) (by norm_num) (by norm_num) (by decide),
      Ieee.value_encode (by norm_num) (by norm_num) (by norm_num) (by decide)]
    norm_num
  · decide
  · decide

def greatNumeral : Numeral := ⟨false, ['1'], [], 400, false⟩

theorem spells_great : greatNumeral.Spells "1e400".toList := by
  have marked : Decimal.ExponentText ['e', '4', '0', '0'] 400 :=
    .marked (.inl rfl) .none (Decimal.isDigits_toDigits 400) (by simp)
  exact .intro .none (leading_toDigits 1) (.intro .none (by simp) marked)

theorem rounds_great : Rounds greatNumeral.value binary64.infinity := by
  have value : greatNumeral.value = 10 ^ (400 : Int) := by
    have one : Nat.ofDigitChars 10 ['1'] 0 = 1 := rfl
    simp [Numeral.value, greatNumeral, one]
  rw [value]
  apply Ieee.rounds_infinity
  apply le_trans _ Decimal.two_zpow_le_ten_zpow
  exact zpow_le_zpow_right₀ one_le_two (by norm_num)

/-- Literals survive a trip through JSON with their kind, whatever the library is. Numbers are
integers as long as they look and fit so; the other ones are correctly rounded wherever the doubles
of the library are. -/
theorem literals_survive {reader : Reader Literal} {writer : Writer} {takers : Content.Takers}
    (reads : reader.Documented) (writes : writer.Documented)
    (precise : reader.RoundsFloatsOf writer) (takes : takers.Documented) :
    (∀ v, isWritable v → reader.literal takers (writer.literal v) = .ok v) ∧
    (∀ v, isWritable v = false → reader.literal takers (writer.literal v) = .error .shape) ∧
    (∀ vs, (∀ v ∈ vs, isWritable v) → reader.literals takers (writer.literals vs) = .ok vs) ∧
    (∀ text token (numeral : Numeral), Encloses text token → numeral.Spells token →
      (∀ i, reader.literal takers text = .ok (.int i) ↔
        numeral.IsInteger ∧ i.toInt = numeral.toInt) ∧
      (¬ numeral.IsInteger → (∃ x, reader.literal takers text = .ok (.float x)) ∨
        reader.literal takers text = .error .malformed) ∧
      (∃ nearest, Rounds numeral.value nearest) ∧
      (¬ numeral.IsInteger → reader.Rounds token numeral → ∀ nearest,
        Rounds numeral.value nearest → reader.literal takers text =
          if nearest = binary64.infinity then .error .malformed
          else .ok (.float (Ieee.toFloat numeral.negative nearest)))) ∧
    (∀ text body content, Encloses text ('"' :: (body ++ ['"'])) → StringText body content →
      reader.literal takers text = .ok (.text (.ofList content))) ∧
    (∀ text, Encloses text "null".toList → reader.literal takers text = .error .shape) ∧
    (∀ text bracket, Opens text bracket → bracket = '[' ∨ bracket = '\x7b' →
      ∀ v, reader.literal takers text ≠ .ok v) ∧
    ∀ text v, reader.literal takers text = .ok v ↔ ∃ token content, Encloses text token ∧
      Offers reader.double token content ∧ Literal.offered content = some v := by
  constructor
  · exact fun v => literal_of_write reads takes writes precise
  constructor
  · exact fun v => literal_of_write_null reads takes writes
  constructor
  · exact fun vs => literals_of_write reads takes writes precise
  constructor
  · intro text token numeral encloses spells
    constructor
    · exact literal_eq_int_iff reads takes encloses spells
    constructor
    · exact literal_of_not_isInteger reads takes encloses spells
    constructor
    · exact numeral.exists_rounds
    · exact fun noInteger nearest _ =>
        literal_of_rounds reads takes encloses spells noInteger nearest
  constructor
  · exact fun _ _ _ encloses string => literal_of_offered reads takes encloses (.text string) rfl
  constructor
  · exact fun _ => literal_null reads takes
  constructor
  · exact fun _ _ opens nested _ => literal_ne_ok reads takes opens nested
  · exact fun _ _ => literal_eq_ok_iff reads takes

theorem plain_literals_survive :
    readLiteral (plainWriter.literal (.float (-0.0))) = .ok (.float (-0.0)) ∧
    readLiteral (plainWriter.literal (.float (0 / 0))) = .error .shape ∧
    readList (plainWriter.literals [.bool true, .text "1"]) = .ok [.bool true, .text "1"] ∧
    readLiteral "9007199254740993e-0" = .ok (.float 9007199254740992) ∧
    readLiteral "1e400" = .error .malformed ∧
    readLiteral "null" = .error .shape ∧
    ∀ v, readLiteral "[1]" ≠ .ok v := by
  obtain ⟨single, infinite, list, number, -, null, bracket, -⟩ :=
    literals_survive plainReader_documented plainWriter_documented plainReader_roundsFloatsOf
      Content.plainTakers_documented
  have opens : Opens "[1]" '[' := ⟨[], ['1', ']'], rfl, by simp [Space]⟩
  have odd : readLiteral "9007199254740993e-0" = .ok (.float 9007199254740992) := by
    obtain ⟨-, -, -, nearest⟩ := number _ _ _ (encloses_self _) spells_odd
    have few := plainReader_rounds (T := Literal) spells_odd (by decide +kernel)
    have float : Ieee.toFloat oddNumeral.negative (binary64.encode (2 ^ 52) 1) =
        9007199254740992 := by
      decide +kernel
    have read := nearest (fun integer => Bool.false_ne_true integer.1) few _ rounds_odd
    rw [if_neg (by decide), float] at read
    exact read
  have great : readLiteral "1e400" = .error .malformed := by
    obtain ⟨-, -, -, nearest⟩ := number _ _ _ (encloses_self _) spells_great
    have few := plainReader_rounds (T := Literal) spells_great (by decide +kernel)
    have read := nearest (fun integer => Bool.false_ne_true integer.1) few _ rounds_great
    rw [if_pos rfl] at read
    exact read
  exact ⟨single _ (by decide +kernel), infinite _ (by decide +kernel),
    list _ (by simp [isWritable]), odd, great, null _ (encloses_self _),
    bracket _ _ opens (.inl rfl)⟩

end ExprGraph.Json
