import ExprGraph.Proofs.Json.Numeral
import ExprGraph.Proofs.Json.Plain

set_option autoImplicit false

namespace ExprGraph.Json

open Decimal (ExponentText FractionText IsDigits)
open Ieee (binary64)

def unitDigits (n : Nat) : List Char :=
  [n / 4096 % 16, n / 256 % 16, n / 16 % 16, n % 16].map Nat.digitChar

def escape (c : Char) : List Char :=
  match c with
  | '"' => ['\\', '"']
  | '\\' => ['\\', '\\']
  | '\x08' => ['\\', 'b']
  | '\x0c' => ['\\', 'f']
  | '\n' => ['\\', 'n']
  | '\r' => ['\\', 'r']
  | '\t' => ['\\', 't']
  | _ => if c.toNat < 0x20 then '\\' :: 'u' :: unitDigits c.toNat else [c]

def plainWriter : Writer where
  bool b := if b then "true" else "false"
  signed i := toString i.toInt
  float x := if Ieee.isFinite x then Number.floatLayout.write x else "null"
  text s := .ofList ('"' :: (s.toList.flatMap escape ++ ['"']))
  list texts := .ofList (listText (texts.map String.toList))

section Floats

variable {digits : List Char} {n : Nat} {e : Int} {x : Float}

inductive Fractional : List Char → Prop where
  | intro {whole tail fraction : List Char} {exponent : Int} : Leading whole →
      Trailing tail fraction exponent → tail ≠ [] →
      whole.length + fraction.length ≤ digitLimit → Fractional (whole ++ tail)

theorem fractional_point {whole fraction : List Char} (leading : Leading whole)
    (isDigits : IsDigits fraction) (nonempty : fraction ≠ [])
    (few : whole.length + fraction.length ≤ digitLimit) :
    Fractional (whole ++ '.' :: fraction) := by
  have trailing : Trailing ('.' :: fraction ++ []) fraction 0 :=
    .intro (.point isDigits) (by simpa using nonempty) .none
  rw [List.append_nil] at trailing
  exact .intro leading trailing (by simp) few

theorem leading_zero : Leading ['0'] := leading_toDigits 0

theorem head_toDigits {n : Nat} (positive : n ≠ 0) : (Nat.toDigits 10 n).head? ≠ some '0' :=
  fun zero => positive (eq_zero_of_toDigits ((leading_toDigits n).zero zero))

theorem leading_of_head {whole : List Char} (positive : n ≠ 0) (isDigits : IsDigits whole)
    (head : whole.head? = (Nat.toDigits 10 n).head?) : Leading whole := by
  constructor
  · exact isDigits
  · rintro rfl
    exact Nat.toDigits_ne_nil (List.head?_eq_none_iff.mp head.symm)
  · intro zero
    exact absurd (head ▸ zero) (head_toDigits positive)

theorem fractional_writePositional (positive : n ≠ 0) (few : (Nat.toDigits 10 n).length ≤ 18)
    (small : -4 ≤ e) (large : e < 16) :
    Fractional (Number.floatLayout.writePositional (Nat.toDigits 10 n) e) := by
  have isDigits := Decimal.isDigits_toDigits n
  have limit : digitLimit = 768 := rfl
  cases e with
  | negSucc zeros =>
    have shape : Number.floatLayout.writePositional (Nat.toDigits 10 n) (.negSucc zeros) =
        ['0'] ++ '.' :: (List.replicate zeros '0' ++ Nat.toDigits 10 n) := rfl
    rw [shape]
    apply fractional_point leading_zero
    · exact (Decimal.isDigits_replicate zeros).append isDigits
    · simp [Nat.toDigits_ne_nil]
    · simp
      omega
  | ofNat k =>
    rw [Int.ofNat_eq_natCast] at large
    have kept : Number.floatLayout.keepsFraction = true := rfl
    simp only [Decimal.Layout.writePositional, kept]
    split
    next more =>
      have longer : k + 1 < (Nat.toDigits 10 n).length := by simpa using more
      have full : k + 1 - ((Nat.toDigits 10 n).take (k + 1)).length = 0 := by
        rw [List.length_take]
        omega
      rw [full, List.replicate_zero, List.append_nil]
      have leading : Leading ((Nat.toDigits 10 n).take (k + 1)) := by
        apply leading_of_head positive
        · exact fun c member => isDigits c (List.mem_of_mem_take member)
        · rw [List.head?_take, if_neg (Nat.succ_ne_zero k)]
      apply fractional_point leading
      · exact fun c member => isDigits c (List.mem_of_mem_drop member)
      · exact more
      · simp
        omega
    next less =>
      have shorter : (Nat.toDigits 10 n).length ≤ k + 1 := by simpa using less
      rw [List.take_of_length_le shorter, if_pos trivial]
      have zeros := Decimal.isDigits_replicate (k + 1 - (Nat.toDigits 10 n).length)
      have leading := leading_of_head positive (isDigits.append zeros)
        (List.head?_append_of_ne_nil _ Nat.toDigits_ne_nil)
      apply fractional_point leading
      · exact Decimal.isDigits_replicate 1
      · simp
      · simp
        omega

theorem fractional_writeScientific (positive : n ≠ 0) (few : (Nat.toDigits 10 n).length ≤ 18)
    (e : Int) : Fractional (Decimal.Layout.writeScientific (Nat.toDigits 10 n) e) := by
  have limit : digitLimit = 768 := rfl
  have isDigits := Decimal.isDigits_toDigits n
  have marked : ExponentText ('e' :: (toString e).toList) e := by
    apply Decimal.readExponent?_eq_some_iff.mp
    rw [Decimal.readExponent?, if_pos (.inl rfl), Decimal.readInteger?_toString]
  obtain ⟨first, rest, text⟩ := List.exists_cons_of_ne_nil (Nat.toDigits_ne_nil (n := n) (b := 10))
  rw [text] at isDigits few
  obtain ⟨digit, later⟩ := List.forall_mem_cons.mp isDigits
  have leading : Leading [first] := by
    apply leading_of_head positive
    · simpa [IsDigits] using digit
    · simp [text]
  rw [text]
  cases rest with
  | nil => exact .intro leading (.intro .none (by simp) marked) (by simp) (by simp [limit])
  | cons second rest =>
    have trailing : Trailing ('.' :: (second :: rest) ++ 'e' :: (toString e).toList)
        (second :: rest) e := .intro (.point later) (by simp) marked
    apply Fractional.intro leading trailing
    · simp
    · simp at few ⊢
      omega

theorem fractional_writeMagnitude {m : Nat} (holds : binary64.Holds m e) :
    Fractional (Number.floatLayout.writeMagnitude (.finite m e)) := by
  cases m with
  | zero => exact fractional_point leading_zero (Decimal.isDigits_replicate 1) (by simp) (by decide)
  | succ m =>
    have near := Decimal.contains_shortest holds m.succ_ne_zero
    have few := Decimal.shortest_coefficient_le m.succ_ne_zero e
    change Fractional (Number.floatLayout.writeDecimal (Decimal.shortest (m + 1) e))
    generalize Decimal.shortest (m + 1) e = d at near few
    have positive : d.coefficient ≠ 0 := by
      intro zero
      have above := Decimal.Neighbourhood.pos_of_contains (Decimal.den_toRatio_pos d)
        m.succ_ne_zero near
      simp [Decimal.toRat_toRatio, zero] at above
    have short : (Nat.toDigits 10 d.coefficient).length ≤ 18 := by
      apply (Nat.length_toDigits_le_iff (by decide) (by decide)).mpr
      exact few.trans_lt (by norm_num)
    rw [Decimal.Layout.writeDecimal]
    split
    next positional =>
      simp only [Number.floatLayout, Bool.and_eq_true, decide_eq_true_eq] at positional
      exact fractional_writePositional positive short positional.1 positional.2
    next => exact fractional_writeScientific positive short _

theorem exists_finite (finite : Ieee.isFinite x) :
    ∃ m e, Ieee.magnitude x = .finite m e ∧ binary64.Holds m e := by
  have below : x.toBits.toNat % binary64.signBit < binary64.infinity := by
    by_contra above
    rcases Nat.lt_or_eq_of_le (Nat.le_of_not_lt above) with nan | infinite
    · have magnitude : Ieee.magnitude x = .nan :=
        Ieee.decode_of_infinity_lt nan (Nat.mod_lt _ (by decide))
      simp [Ieee.isFinite, magnitude] at finite
    · have magnitude : Ieee.magnitude x = .infinite := by
        rw [Ieee.magnitude, ← infinite, Ieee.decode_infinity]
      simp [Ieee.isFinite, magnitude] at finite
  obtain ⟨m, e, decoded, holds, -⟩ := Ieee.Format.exists_decode_eq below
  exact ⟨m, e, decoded, holds⟩

theorem exists_sign_of_write {m : Nat} (magnitude : Ieee.magnitude x = .finite m e) :
    ∃ sign, Minus sign (Ieee.isNegative x) ∧ (Number.floatLayout.write x).toList =
      sign ++ Number.floatLayout.writeMagnitude (.finite m e) := by
  cases negative : Ieee.isNegative x with
  | true => exact ⟨['-'], .minus, by simp [Decimal.Layout.write, magnitude, negative]⟩
  | false => exact ⟨[], .none, by simp [Decimal.Layout.write, magnitude, negative]⟩

theorem exists_spells_float (finite : Ieee.isFinite x) : ∃ (numeral : Numeral) (bits : Nat),
    numeral.Spells (Number.floatLayout.write x).toList ∧ numeral.integral = false ∧
      numeral.whole.length + numeral.fraction.length ≤ digitLimit ∧
      Ieee.Rounds numeral.value bits ∧ Ieee.toFloat numeral.negative bits = x := by
  obtain ⟨m, e, magnitude, holds⟩ := exists_finite finite
  obtain ⟨sign, signed, text⟩ := exists_sign_of_write magnitude
  have fractional := fractional_writeMagnitude holds
  have reads := Decimal.readFloat?_write Number.floatLayout x
  rw [← String.ofList_toList (s := Number.floatLayout.write x)] at reads
  rw [text] at reads ⊢
  generalize Number.floatLayout.writeMagnitude (.finite m e) = written at *
  generalize Ieee.isNegative x = negative at *
  obtain ⟨leading, trailing, nonempty, few⟩ := fractional
  rename_i whole tail fraction exponent
  have spells := Numeral.Spells.intro signed leading trailing
  have number : Decimal.FloatText (sign ++ (whole ++ tail)) negative
      (.number whole fraction exponent) := .intro signed.sign (leading.numberText trailing)
  obtain ⟨bits, rounds⟩ := (Decimal.Spelling.number whole fraction exponent).exists_denotes
  have value := Decimal.readFloat?_eq_some_iff.mpr ⟨_, _, bits, number, rounds, rfl⟩
  rw [reads, Option.some.injEq] at value
  exact ⟨_, bits, spells, decide_eq_false nonempty, few, rounds, value.symm⟩

end Floats

section Texts

theorem hexDigit?_digitChar : ∀ k < 16, hexDigit? (Nat.digitChar k) = some k := by decide

theorem unitText_unitDigits {n : Nat} (small : n < 0x10000) : UnitText (unitDigits n) n := by
  have text := UnitText.intro (hexDigit?_digitChar (n / 4096 % 16) (Nat.mod_lt _ (by decide)))
    (hexDigit?_digitChar (n / 256 % 16) (Nat.mod_lt _ (by decide)))
    (hexDigit?_digitChar (n / 16 % 16) (Nat.mod_lt _ (by decide)))
    (hexDigit?_digitChar (n % 16) (Nat.mod_lt _ (by decide)))
  have value : 16 * (16 * (16 * (n / 4096 % 16) + n / 256 % 16) + n / 16 % 16) + n % 16 = n := by
    omega
  rwa [value] at text

theorem charText_escape (c : Char) : CharText (escape c) c := by
  unfold escape
  split
  · exact .short rfl
  · exact .short rfl
  · exact .short rfl
  · exact .short rfl
  · exact .short rfl
  · exact .short rfl
  · exact .short rfl
  next quote backslash _ _ _ _ _ =>
    split
    next control =>
      have text := CharText.unit (unitText_unitDigits (control.trans (by decide))) (.inl (by omega))
      rwa [Char.ofNat_toNat] at text
    next visible => exact .plain (Nat.le_of_not_lt visible) quote backslash

theorem stringText_escape (cs : List Char) : StringText (cs.flatMap escape) cs := by
  induction cs with
  | nil => exact .nil
  | cons c cs ih =>
    rw [List.flatMap_cons]
    exact .cons (charText_escape c) ih

end Texts

theorem plainWriter_documented : plainWriter.Documented where
  bool _ := rfl
  signed _ := rfl
  float x finite := by
    obtain ⟨numeral, bits, spells, fractional, -, rounds, same⟩ := exists_spells_float finite
    simp only [plainWriter, if_pos finite]
    exact ⟨numeral, bits, spells, fractional, rounds, same⟩
  not_finite x infinite := by
    simp [plainWriter, infinite]
  text s := ⟨s.toList.flatMap escape, stringText_escape s.toList, String.toList_ofList⟩
  list _ := rfl

theorem plainReader_roundsFloatsOf {T : Type} :
    (plainReader : Reader T).RoundsFloatsOf plainWriter := by
  intro x numeral finite spells
  obtain ⟨written, bits, spelled, -, few, -⟩ := exists_spells_float finite
  simp only [plainWriter, if_pos finite] at spells ⊢
  rw [spells.unique spelled]
  exact plainReader_rounds spelled few

end ExprGraph.Json
