import ExprGraph.Content
import ExprGraph.Json.Escape
import ExprGraph.Proofs.Decimal.Grammar

set_option autoImplicit false

namespace ExprGraph.Json

open Decimal (ExponentText FractionText IsDigits)

inductive Minus : List Char → Bool → Prop where
  | none : Minus [] false
  | minus : Minus ['-'] true

theorem Minus.sign {sign : List Char} {negative : Bool} (signed : Minus sign negative) :
    Decimal.Sign sign negative := by
  cases signed with
  | none => exact .none
  | minus => exact .minus

structure Leading (whole : List Char) : Prop where
  digits : IsDigits whole
  nonempty : whole ≠ []
  zero : whole.head? = some '0' → whole = ['0']

theorem Leading.ofDigitChars_eq_zero_iff {whole : List Char} (leading : Leading whole) :
    Nat.ofDigitChars 10 whole 0 = 0 ↔ whole = ['0'] := by
  constructor
  · intro nothing
    obtain ⟨c, rest, rfl⟩ := List.exists_cons_of_ne_nil leading.nonempty
    rw [Nat.ofDigitChars_cons, Nat.ofDigitChars_eq_ofDigitChars_zero, Nat.add_eq_zero_iff,
      Nat.mul_eq_zero] at nothing
    have power : 10 ^ rest.length ≠ 0 := by positivity
    have first := nothing.1.resolve_left power
    have digit := leading.digits c List.mem_cons_self
    apply leading.zero
    rw [List.head?_cons, Option.some.injEq, ← Char.toNat_inj]
    simp [Char.isDigit, UInt32.le_iff_toNat_le, ← Char.toNat_val] at digit first ⊢
    omega
  · rintro rfl
    rfl

inductive Trailing : List Char → List Char → Int → Prop where
  | intro {point fraction mark : List Char} {exponent : Int} : FractionText point fraction →
      point ≠ ['.'] → ExponentText mark exponent → Trailing (point ++ mark) fraction exponent

theorem Trailing.digits {cs fraction : List Char} {exponent : Int}
    (trailing : Trailing cs fraction exponent) : IsDigits fraction := by
  obtain ⟨pointed, -, -⟩ := trailing
  cases pointed with
  | none => simp [IsDigits]
  | point digits => exact digits

theorem Trailing.head_not_digit {cs fraction : List Char} {exponent : Int}
    (trailing : Trailing cs fraction exponent) : ∀ c ∈ cs.head?, c.isDigit = false := by
  obtain ⟨pointed, -, text⟩ := trailing
  cases pointed with
  | none => exact text.head_not_digit
  | point => exact fun c first => Option.some.inj first ▸ rfl

theorem Leading.numberText {whole tail fraction : List Char} {exponent : Int}
    (leading : Leading whole) (trailing : Trailing tail fraction exponent) :
    Decimal.NumberText (whole ++ tail) whole fraction exponent := by
  obtain ⟨pointed, -, marked⟩ := trailing
  have nonempty := List.append_ne_nil_of_left_ne_nil leading.nonempty fraction
  exact .intro leading.digits pointed nonempty marked

theorem Leading.splitSign_append {sign whole : List Char} {negative : Bool}
    (leading : Leading whole) (signed : Decimal.Sign sign negative) (tail : List Char) :
    Decimal.splitSign (sign ++ (whole ++ tail)) = (negative, whole ++ tail) := by
  obtain ⟨c, rest, rfl⟩ := List.exists_cons_of_ne_nil leading.nonempty
  apply Decimal.splitSign_append signed
  exact fun d first => ⟨leading.digits.head_ne rfl d first, leading.digits.head_ne rfl d first⟩

structure Numeral where
  negative : Bool
  whole : List Char
  fraction : List Char
  exponent : Int
  integral : Bool

namespace Numeral

variable {numeral : Numeral} {cs : List Char}

inductive Spells : List Char → Numeral → Prop where
  | intro {sign whole tail fraction : List Char} {negative : Bool} {exponent : Int} :
      Minus sign negative → Leading whole → Trailing tail fraction exponent →
      Spells (sign ++ (whole ++ tail)) ⟨negative, whole, fraction, exponent, tail = []⟩

theorem Spells.ne_nil (spells : Spells cs numeral) : cs ≠ [] := by
  obtain ⟨-, leading, -⟩ := spells
  simp [leading.nonempty]

def toInt (numeral : Numeral) : Int :=
  if numeral.negative then -Nat.ofDigitChars 10 numeral.whole 0
  else Nat.ofDigitChars 10 numeral.whole 0

def value (numeral : Numeral) : ℚ :=
  Nat.ofDigitChars 10 (numeral.whole ++ numeral.fraction) 0 *
    10 ^ (numeral.exponent - numeral.fraction.length)

def IsInteger (numeral : Numeral) : Prop :=
  numeral.integral ∧ -2 ^ 63 ≤ numeral.toInt ∧ numeral.toInt ≤ 2 ^ 63 - 1 ∧
    ¬ (numeral.negative ∧ numeral.whole = ['0'])

instance : Decidable numeral.IsInteger := inferInstanceAs (Decidable (_ ∧ _ ∧ _ ∧ ¬ (_ ∧ _)))

-- Digits alone make a word if it has room for them, and so do those after a minus, except for zero.
def word? (numeral : Numeral) : Option Content :=
  let n := Nat.ofDigitChars 10 numeral.whole 0
  if numeral.integral ∧ ¬numeral.negative ∧ n < 2 ^ 64 then some (.unsigned (.ofNat n))
  else if numeral.integral ∧ numeral.negative ∧ n ≠ 0 ∧ n ≤ 2 ^ 63 then some (.signed (.ofInt (-n)))
  else none

end Numeral

inductive UnitText : List Char → Nat → Prop where
  | intro {a b c d : Char} {w x y z : Nat} : hexDigit? a = some w → hexDigit? b = some x →
      hexDigit? c = some y → hexDigit? d = some z →
      UnitText [a, b, c, d] (16 * (16 * (16 * w + x) + y) + z)

inductive CharText : List Char → Char → Prop where
  | plain {c : Char} : 0x20 ≤ c.toNat → c ≠ '"' → c ≠ '\\' → CharText [c] c
  | short {mark c : Char} : unescape? mark = some c → CharText ['\\', mark] c
  | unit {digits : List Char} {n : Nat} : UnitText digits n → n < 0xD800 ∨ 0xDFFF < n →
      CharText ('\\' :: 'u' :: digits) (.ofNat n)
  | pair {first second : List Char} {high low : Nat} : UnitText first high → UnitText second low →
      0xD800 ≤ high → high < 0xDC00 → 0xDC00 ≤ low → low ≤ 0xDFFF →
      CharText ('\\' :: 'u' :: (first ++ '\\' :: 'u' :: second))
        (.ofNat (0x10000 + (high - 0xD800) * 0x400 + (low - 0xDC00)))

inductive StringText : List Char → List Char → Prop where
  | nil : StringText [] []
  | cons {text rest content : List Char} {c : Char} : CharText text c → StringText rest content →
      StringText (text ++ rest) (c :: content)

def IsSpace (c : Char) : Prop := c = ' ' ∨ c = '\n' ∨ c = '\t' ∨ c = '\r'

instance (c : Char) : Decidable (IsSpace c) := inferInstanceAs (Decidable (_ ∨ _ ∨ _ ∨ _))

def Space (cs : List Char) : Prop := ∀ c ∈ cs, IsSpace c

def Encloses (text : String) (token : List Char) : Prop :=
  ∃ before after, text.toList = before ++ (token ++ after) ∧ Space before ∧ Space after

def Opens (text : String) (bracket : Char) : Prop :=
  ∃ before after, text.toList = before ++ bracket :: after ∧ Space before

def listText (tokens : List (List Char)) : List Char :=
  '[' :: ([','].intercalate tokens ++ [']'])

-- A token without brackets, and what it offers. The doubles are those that a library makes.
inductive Offers (double : List Char → Option Float) : List Char → Content → Prop where
  | null : Offers double "null".toList .unit
  | true : Offers double "true".toList (.bool true)
  | false : Offers double "false".toList (.bool false)
  | word {text : List Char} {numeral : Numeral} {content : Content} :
      numeral.Spells text → numeral.word? = some content → Offers double text content
  | double {text : List Char} {numeral : Numeral} {x : Float} : numeral.Spells text →
      numeral.word? = none → double text = some x → Offers double text (.float x)
  | text {text content : List Char} : StringText text content →
      Offers double ('"' :: (text ++ ['"'])) (.text (.ofList content))

end ExprGraph.Json
