import ExprGraph.Json.Library
import ExprGraph.Proofs.Json.Grammar

set_option autoImplicit false

namespace ExprGraph

-- What the four plain types are documented to take. Whole numbers are taken wherever they fit, and
-- as floats too, with the rounding of a conversion.
structure Content.Takers.Documented (takers : Content.Takers) : Prop where
  bool_iff : ∀ content b, takers.bool? content = some b ↔ content = .bool b
  int_iff : ∀ content i, takers.int? content = some i ↔
    content = .signed i ∨ ∃ n : UInt64, content = .unsigned n ∧ i.toInt = n.toNat
  float_iff : ∀ content x, takers.float? content = some x ↔ content = .float x ∨
    (∃ i : Int64, content = .signed i ∧ x = Ieee.ofInt i.toInt) ∨
      ∃ n : UInt64, content = .unsigned n ∧ x = Ieee.ofInt n.toNat
  text_iff : ∀ content s, takers.text? content = some s ↔ content = .text s

namespace Content

variable {takers others : Takers}

theorem Takers.Documented.unique (first : takers.Documented) (second : others.Documented) :
    takers = others := by
  ext content
  · rw [first.bool_iff, second.bool_iff]
  · rw [first.int_iff, second.int_iff]
  · rw [first.float_iff, second.float_iff]
  · rw [first.text_iff, second.text_iff]

theorem plainTakers_documented : plainTakers.Documented where
  bool_iff content b := by
    cases content <;> simp [plainTakers]
  int_iff content i := by
    cases content with
    | signed j => simp [plainTakers]
    | unsigned n =>
      simp only [plainTakers, Nat.one_shiftLeft, reduceCtorEq, false_or, Content.unsigned.injEq,
        exists_eq_left']
      constructor
      · intro taken
        obtain ⟨fits, same⟩ := Option.ite_none_right_eq_some.mp taken
        obtain rfl := Option.some.inj same
        exact Int64.toInt_ofNat_of_lt fits
      · intro same
        have fits : n.toNat < 2 ^ 63 := by
          have := i.toInt_lt
          omega
        rw [if_pos fits, Option.some.injEq, ← Int64.toInt_inj, Int64.toInt_ofNat_of_lt fits, same]
    | unit | bool | float | text | list | map => simp [plainTakers]
  float_iff content x := by
    cases content <;> simp [plainTakers, eq_comm]
  text_iff content s := by
    cases content <;> simp [plainTakers]

end Content

namespace Literal

variable {takers : Content.Takers} {content : Content}

-- The literal of the first kind that takes the content.
def offered : Content → Option Literal
  | .bool b => some (.bool b)
  | .signed i => some (.int i)
  | .unsigned n =>
    some (if n.toNat < 2 ^ 63 then .int (.ofNat n.toNat) else .float (Ieee.ofInt n.toNat))
  | .float x => some (.float x)
  | .text s => some (.text s)
  | .unit | .list | .map => none

theorem ofContent?_eq (takes : takers.Documented) (content : Content) :
    ofContent? takers content = offered content := by
  rw [takes.unique Content.plainTakers_documented]
  cases content with
  | unsigned n =>
    by_cases fits : n.toNat < 2 ^ 63 <;>
      simp only [ofContent?, variants, List.findSome?, Content.plainTakers, Nat.one_shiftLeft,
        offered, fits, if_true, if_false, Option.map_none, Option.map_some]
  | unit | bool | signed | float | text | list | map => rfl

end Literal

namespace Json

-- How a library is documented to read.
structure Reader.Documented {T : Type} (reader : Reader T) : Prop where
  value_of_offers : ∀ accept text token content, Encloses text token →
    Offers reader.double token content →
    reader.value accept text = (accept content).elim (.error .shape) .ok
  value_of_overflow : ∀ accept text token (numeral : Numeral), Encloses text token →
    numeral.Spells token → numeral.word? = none → reader.double token = none →
    reader.value accept text = .error .malformed
  of_value : ∀ accept text v, reader.value accept text = .ok v →
    ∃ content, accept content = some v ∧
      ((∃ token, Encloses text token ∧ Offers reader.double token content) ∨
        (content = .list ∧ Opens text '[') ∨ (content = .map ∧ Opens text '\x7b'))
  list_of_offers : ∀ accept tokens vs,
    List.Forall₂ (fun token v => ∃ content, Offers reader.double token content ∧
      accept content = some v) tokens vs →
    reader.list accept (.ofList (listText tokens)) = .ok vs

-- How a library is documented to write. The text of a float keeps a point or an exponent, and has
-- that float as the nearest one.
structure Writer.Documented (writer : Writer) : Prop where
  bool : ∀ b, writer.bool b = if b then "true" else "false"
  signed : ∀ i, writer.signed i = toString i.toInt
  float : ∀ x, Ieee.isFinite x → ∃ (numeral : Numeral) (bits : Nat),
    numeral.Spells (writer.float x).toList ∧ numeral.integral = false ∧
      Ieee.Rounds numeral.value bits ∧ Ieee.toFloat numeral.negative bits = x
  not_finite : ∀ x, Ieee.isFinite x = false → writer.float x = "null"
  text : ∀ s, ∃ body, StringText body s.toList ∧
    (writer.text s).toList = '"' :: (body ++ ['"'])
  list : ∀ texts, writer.list texts = .ofList (listText (texts.map String.toList))

def Reader.Rounds {T : Type} (reader : Reader T) (token : List Char) (numeral : Numeral) : Prop :=
  numeral.word? = none → ∀ bits, Ieee.Rounds numeral.value bits → reader.double token =
    if bits = Ieee.binary64.infinity then none else some (Ieee.toFloat numeral.negative bits)

-- Correct rounding is documented for what the library itself writes, and for no other number.
def Reader.RoundsFloatsOf {T : Type} (reader : Reader T) (writer : Writer) : Prop :=
  ∀ x numeral, Ieee.isFinite x → numeral.Spells (writer.float x).toList →
    reader.Rounds (writer.float x).toList numeral

end Json

end ExprGraph
