import ExprGraph.Proofs.Json.Numeral

set_option autoImplicit false

namespace ExprGraph.Json

open Ieee (Rounds binary64)

variable {reader : Reader Literal} {writer : Writer} {takers : Content.Takers}
  {double : List Char → Option Float} {text : String} {token before after : List Char}
  {numeral : Numeral} {content : Content} {v : Literal} {vs : List Literal}

theorem encloses_self (text : String) : Encloses text text.toList := by
  have nothing : Space [] := by simp [Space]
  exact ⟨[], [], by simp, nothing, nothing⟩

section Start

-- What follows leading white space is determined by the text.
theorem eq_of_space {c d : Char} {left right cs ds : List Char}
    (same : left ++ c :: cs = right ++ d :: ds) (leftSpace : Space left) (rightSpace : Space right)
    (first : ¬ IsSpace c) (other : ¬ IsSpace d) : c = d := by
  have skip (spaces rest : List Char) (e : Char) (space : Space spaces) (notSpace : ¬ IsSpace e) :
      (spaces ++ e :: rest).dropWhile (IsSpace ·) = e :: rest := by
    rw [List.dropWhile_append_of_pos (by simpa [Space] using space),
      List.dropWhile_cons_of_neg (by simpa using notSpace)]
  have rest := congrArg (List.dropWhile (IsSpace ·)) same
  rw [skip _ _ _ leftSpace first, skip _ _ _ rightSpace other] at rest
  exact (List.cons.inj rest).1

theorem Numeral.Spells.exists_cons (spells : numeral.Spells token) :
    ∃ c rest, token = c :: rest ∧ (c.isDigit ∨ c = '-') := by
  obtain ⟨signed, leading, -⟩ := spells
  cases signed with
  | minus => exact ⟨'-', _, rfl, .inr rfl⟩
  | none =>
    obtain ⟨c, rest, rfl⟩ := List.exists_cons_of_ne_nil leading.nonempty
    exact ⟨c, _, rfl, .inl (leading.digits c List.mem_cons_self)⟩

theorem Numeral.Spells.exists_first (spells : numeral.Spells token) :
    ∃ c rest, token = c :: rest ∧ ¬ IsSpace c ∧ c ≠ '[' ∧ c ≠ '\x7b' := by
  obtain ⟨c, rest, rfl, digit | rfl⟩ := spells.exists_cons
  · refine ⟨c, rest, rfl, ?_, ?_, ?_⟩
    · rintro (rfl | rfl | rfl | rfl) <;> contradiction
    · rintro rfl
      contradiction
    · rintro rfl
      contradiction
  · exact ⟨'-', rest, rfl, by decide, by decide, by decide⟩

theorem Offers.exists_first (offers : Offers double token content) :
    ∃ c rest, token = c :: rest ∧ ¬ IsSpace c ∧ c ≠ '[' ∧ c ≠ '\x7b' := by
  cases offers with
  | null => exact ⟨'n', _, rfl, by decide, by decide, by decide⟩
  | true => exact ⟨'t', _, rfl, by decide, by decide, by decide⟩
  | false => exact ⟨'f', _, rfl, by decide, by decide, by decide⟩
  | word spells => exact spells.exists_first
  | double spells => exact spells.exists_first
  | text => exact ⟨'"', _, rfl, by decide, by decide, by decide⟩

theorem Offers.not_opens {bracket : Char} (offers : Offers double token content)
    (encloses : Encloses text token) (opens : Opens text bracket) :
    bracket ≠ '[' ∧ bracket ≠ '\x7b' := by
  obtain ⟨c, rest, rfl, notSpace, noArray, noObject⟩ := offers.exists_first
  obtain ⟨before, after, split, space, -⟩ := encloses
  obtain ⟨left, right, other, leftSpace⟩ := opens
  have same := split.symm.trans other
  constructor
  · rintro rfl
    exact noArray (eq_of_space same space leftSpace notSpace (by decide))
  · rintro rfl
    exact noObject (eq_of_space same space leftSpace notSpace (by decide))

end Start

section Reading

variable (reads : reader.Documented) (takes : takers.Documented)

include reads takes

theorem literal_of_offers (encloses : Encloses text token)
    (offers : Offers reader.double token content) :
    reader.literal takers text = (Literal.offered content).elim (.error .shape) .ok := by
  rw [Reader.literal, reads.value_of_offers _ _ _ _ encloses offers,
    Literal.ofContent?_eq takes]

theorem literal_of_offered (encloses : Encloses text token)
    (offers : Offers reader.double token content) (offered : Literal.offered content = some v) :
    reader.literal takers text = .ok v := by
  rw [literal_of_offers reads takes encloses offers, offered, Option.elim_some]

theorem literal_eq_ok_iff : reader.literal takers text = .ok v ↔ ∃ token content,
    Encloses text token ∧ Offers reader.double token content ∧
      Literal.offered content = some v := by
  constructor
  · intro read
    obtain ⟨content, accepted, origin⟩ := reads.of_value _ _ _ read
    rw [Literal.ofContent?_eq takes] at accepted
    rcases origin with ⟨token, encloses, offers⟩ | ⟨rfl, -⟩ | ⟨rfl, -⟩
    · exact ⟨token, content, encloses, offers, accepted⟩
    · contradiction
    · contradiction
  · rintro ⟨token, content, encloses, offers, offered⟩
    exact literal_of_offered reads takes encloses offers offered

theorem literal_ne_ok {bracket : Char} (opens : Opens text bracket)
    (nested : bracket = '[' ∨ bracket = '\x7b') : reader.literal takers text ≠ .ok v := by
  intro read
  obtain ⟨token, content, encloses, offers, -⟩ := (literal_eq_ok_iff reads takes).mp read
  obtain ⟨noArray, noObject⟩ := offers.not_opens encloses opens
  exact nested.elim noArray noObject

theorem literal_of_isInteger (encloses : Encloses text token) (spells : numeral.Spells token)
    (integer : numeral.IsInteger) :
    reader.literal takers text = .ok (.int (.ofInt numeral.toInt)) := by
  obtain ⟨content, word, offered⟩ := Numeral.exists_word_of_isInteger spells integer
  exact literal_of_offered reads takes encloses (.word spells word) offered

theorem literal_of_not_isInteger (encloses : Encloses text token) (spells : numeral.Spells token)
    (noInteger : ¬ numeral.IsInteger) : (∃ x, reader.literal takers text = .ok (.float x)) ∨
      reader.literal takers text = .error .malformed := by
  cases word : numeral.word? with
  | some content =>
    obtain ⟨-, -, -, offered⟩ := Numeral.offered_of_not_isInteger spells word noInteger
    exact .inl ⟨_, literal_of_offered reads takes encloses (.word spells word) offered⟩
  | none =>
    cases made : reader.double token with
    | some x =>
      exact .inl ⟨x, literal_of_offered reads takes encloses (.double spells word made) rfl⟩
    | none => exact .inr (reads.value_of_overflow _ _ _ _ encloses spells word made)

theorem literal_of_rounds {bits : Nat} (encloses : Encloses text token)
    (spells : numeral.Spells token) (noInteger : ¬ numeral.IsInteger)
    (nearest : reader.Rounds token numeral) (rounds : Rounds numeral.value bits) :
    reader.literal takers text = if bits = binary64.infinity then .error .malformed
      else .ok (.float (Ieee.toFloat numeral.negative bits)) := by
  cases word : numeral.word? with
  | some content =>
    obtain ⟨finite, offered⟩ := Numeral.offered_of_rounds spells word noInteger rounds
    rw [if_neg finite]
    exact literal_of_offered reads takes encloses (.word spells word) offered
  | none =>
    have made := nearest word bits rounds
    split
    next infinite =>
      rw [if_pos infinite] at made
      exact reads.value_of_overflow _ _ _ _ encloses spells word made
    next finite =>
      rw [if_neg finite] at made
      exact literal_of_offered reads takes encloses (.double spells word made) rfl

theorem literal_eq_int_iff (encloses : Encloses text token) (spells : numeral.Spells token)
    (i : Int64) : reader.literal takers text = .ok (.int i) ↔
      numeral.IsInteger ∧ i.toInt = numeral.toInt := by
  by_cases integer : numeral.IsInteger
  · have read := literal_of_isInteger reads takes encloses spells integer
    obtain ⟨-, least, greatest, -⟩ := id integer
    have inside := Int64.toInt_ofInt_of_le least (Int.lt_of_le_sub_one greatest)
    rw [read, Except.ok.injEq, Literal.int.injEq, ← Int64.toInt_inj, inside, and_iff_right integer,
      eq_comm]
  · simp only [integer, false_and, iff_false]
    rcases literal_of_not_isInteger reads takes encloses spells integer with ⟨x, read⟩ | read <;>
      simp [read]

end Reading

section Trip

variable (writes : writer.Documented)

include writes

theorem offers_literal (precise : reader.RoundsFloatsOf writer) (writable : isWritable v) :
    ∃ content, Offers reader.double (writer.literal v).toList content ∧
      Literal.offered content = some v := by
  cases v with
  | bool b =>
    refine ⟨.bool b, ?_, rfl⟩
    rw [Writer.literal, writes.bool]
    cases b with
    | true => exact .true
    | false => exact .false
  | int i =>
    obtain ⟨numeral, spells, integer, same⟩ := Numeral.exists_spells_int i
    obtain ⟨content, word, offered⟩ := Numeral.exists_word_of_isInteger spells integer
    refine ⟨content, ?_, ?_⟩
    · rw [Writer.literal, writes.signed]
      exact .word spells word
    · rw [offered, same, Int64.ofInt_toInt]
  | float x =>
    obtain ⟨numeral, bits, spells, fractional, rounds, rfl⟩ := writes.float x writable
    have noWord := Numeral.word?_of_fractional fractional
    have made := precise _ numeral writable spells noWord bits rounds
    rw [if_neg (Ieee.ne_infinity_of_finite writable)] at made
    exact ⟨.float _, .double spells noWord made, rfl⟩
  | text s =>
    obtain ⟨body, string, written⟩ := writes.text s
    have offers : Offers reader.double _ _ := .text string
    rw [String.ofList_toList, ← written] at offers
    exact ⟨.text s, offers, rfl⟩

theorem null_of_not_writable (notWritable : isWritable v = false) : writer.literal v = "null" := by
  cases v with
  | float x => exact writes.not_finite x notWritable
  | bool | int | text => contradiction

end Trip

section Library

variable (reads : reader.Documented) (takes : takers.Documented)

include reads takes

theorem literal_null (encloses : Encloses text "null".toList) :
    reader.literal takers text = .error .shape :=
  literal_of_offers reads takes encloses .null

variable (writes : writer.Documented)

include writes

theorem literal_of_write (precise : reader.RoundsFloatsOf writer) (writable : isWritable v) :
    reader.literal takers (writer.literal v) = .ok v := by
  obtain ⟨content, offers, offered⟩ := offers_literal writes precise writable
  exact literal_of_offered reads takes (encloses_self _) offers offered

theorem literal_of_write_null (notWritable : isWritable v = false) :
    reader.literal takers (writer.literal v) = .error .shape := by
  rw [null_of_not_writable writes notWritable]
  exact literal_null reads takes (encloses_self _)

theorem literals_of_write (precise : reader.RoundsFloatsOf writer)
    (writable : ∀ v ∈ vs, isWritable v) :
    reader.literals takers (writer.literals vs) = .ok vs := by
  rw [Reader.literals, Writer.literals, writes.list]
  apply reads.list_of_offers
  rw [List.map_map, List.forall₂_map_left_iff, List.forall₂_same]
  intro v member
  obtain ⟨content, offers, offered⟩ := offers_literal writes precise (writable v member)
  exact ⟨content, offers, (Literal.ofContent?_eq takes content).trans offered⟩

end Library

end ExprGraph.Json
