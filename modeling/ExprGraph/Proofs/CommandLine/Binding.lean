import ExprGraph.Binding
import ExprGraph.Proofs.Decimal.Grammar
import ExprGraph.Proofs.Number.Text
import ExprGraph.Proofs.Text.Blank

set_option autoImplicit false

namespace ExprGraph.Binding

open Decimal (FloatText Spelling)
open Text (Blank Bare Trims)

variable {text : String} {name value : List Char} {binding : Binding}

inductive Notes : String → Binding → Prop where
  | intro {name value core literal : List Char} {negative : Bool} {spelling : Spelling}
      {bits : Nat} : '=' ∉ name → Trims name core → Trims value literal →
      FloatText literal negative spelling → spelling.Denotes bits →
      Notes (.ofList (name ++ '=' :: value)) ⟨.ofList core, Ieee.toFloat negative bits⟩

theorem read_of_not_mem (missing : '=' ∉ text.toList) : read text = .error (.noEquals text) := by
  have nothing : text.toList.dropWhile (· ≠ '=') = [] := by
    rw [List.dropWhile_eq_nil_iff]
    intro c member
    have other : c ≠ '=' := fun same => missing (same ▸ member)
    simpa using other
  rw [read, nothing]

theorem read_append (named : '=' ∉ name) : read (.ofList (name ++ '=' :: value)) =
    match Decimal.readFloat? (.ofList (Text.trim value)) with
    | some x => .ok ⟨.ofList (Text.trim name), x⟩
    | none =>
      if Text.trim value = [] then .error (.emptyValue (.ofList name))
      else .error (.invalidValue (.ofList name)) := by
  have plain : ∀ c ∈ name, decide (c ≠ '=') = true := by
    intro c member
    have other : c ≠ '=' := fun same => named (same ▸ member)
    simpa using other
  have taken : (name ++ '=' :: value).takeWhile (· ≠ '=') = name := by
    rw [List.takeWhile_append_of_pos plain]
    simp
  have dropped : (name ++ '=' :: value).dropWhile (· ≠ '=') = '=' :: value := by
    rw [List.dropWhile_append_of_pos plain]
    simp
  cases float : Decimal.readFloat? (.ofList (Text.trim value)) with
  | none => simp only [read, String.toList_ofList, taken, dropped, float]
  | some x => simp only [read, String.toList_ofList, taken, dropped, float]

theorem exists_eq_append (present : '=' ∈ text.toList) :
    ∃ name value, text = .ofList (name ++ '=' :: value) ∧ '=' ∉ name := by
  obtain ⟨name, value, split, named⟩ := List.eq_append_cons_of_mem present
  exact ⟨name, value, by rw [← split, String.ofList_toList], named⟩

theorem read_eq_ok_iff : read text = .ok binding ↔ Notes text binding := by
  constructor
  · intro reads
    by_cases present : '=' ∈ text.toList
    · obtain ⟨name, value, rfl, named⟩ := exists_eq_append present
      rw [read_append named] at reads
      split at reads
      next x float =>
        obtain ⟨negative, spelling, bits, literal, denotes, rfl⟩ :=
          Decimal.readFloat?_eq_some_iff.mp float
        obtain rfl := Except.ok.inj reads
        exact .intro named (Text.trims_trim name) (Text.trims_trim value) literal denotes
      next =>
        split at reads
        · nomatch reads
        · nomatch reads
    · rw [read_of_not_mem present] at reads
      nomatch reads
  · rintro ⟨named, nameTrims, valueTrims, literal, denotes⟩
    have float := Decimal.readFloat?_eq_some_iff.mpr ⟨_, _, _, literal, denotes, rfl⟩
    rw [read_append named, Text.trim_eq_iff.mpr nameTrims, Text.trim_eq_iff.mpr valueTrims, float]

theorem exists_read_iff : (∃ binding, read text = .ok binding) ↔
    ∃ name value literal negative spelling, text.toList = name ++ '=' :: value ∧ '=' ∉ name ∧
      Trims value literal ∧ FloatText literal negative spelling := by
  simp only [read_eq_ok_iff]
  constructor
  · rintro ⟨_, named, _, valueTrims, literal, _⟩
    exact ⟨_, _, _, _, _, String.toList_ofList, named, valueTrims, literal⟩
  · rintro ⟨name, value, literal, negative, spelling, split, named, valueTrims, literalText⟩
    obtain ⟨bits, denotes⟩ := spelling.exists_denotes
    have notes := Notes.intro named (Text.trims_trim name) valueTrims literalText denotes
    rw [← split, String.ofList_toList] at notes
    exact ⟨_, notes⟩

theorem not_isBlank_of_numeric {c : Char} (numeric : c.isAlphanum ∨ c = '-' ∨ c = '.') :
    Text.isBlank c = false := by
  have range : 0x20 < c.toNat ∧ c.toNat < 0x85 := by
    rcases numeric with word | rfl | rfl
    · simp [Char.isAlphanum, Char.isAlpha, Char.isUpper, Char.isLower, Char.isDigit,
        UInt32.le_iff_toNat_le, ← Char.toNat_val] at word ⊢
      omega
    · decide
    · decide
  simp [Text.isBlank, Text.blanks, Text.Ranges.contains]
  omega

theorem bare_of_isNumeric {text : List Char} (numeric : Decimal.IsNumeric text) : Bare text := by
  constructor
  · exact fun c first => not_isBlank_of_numeric (numeric c (List.mem_of_mem_head? first))
  · exact fun c last => not_isBlank_of_numeric (numeric c (List.mem_of_mem_getLast? last))

theorem not_mem_of_blank {blanks : List Char} (blank : Blank blanks) : '=' ∉ blanks :=
  fun member => absurd (blank _ member) (by decide)

theorem read_written {name : String} (x : Float) {w₁ w₂ w₃ w₄ : List Char}
    (named : '=' ∉ name.toList) (bare : Bare name.toList) (blank₁ : Blank w₁) (blank₂ : Blank w₂)
    (blank₃ : Blank w₃) (blank₄ : Blank w₄) :
    read (.ofList (w₁ ++ name.toList ++ w₂ ++ '=' ::
      (w₃ ++ (Number.floatLayout.write x).toList ++ w₄))) = .ok ⟨name, x⟩ := by
  have plain : '=' ∉ w₁ ++ name.toList ++ w₂ := by
    simp [named, not_mem_of_blank blank₁, not_mem_of_blank blank₂]
  have numeric := bare_of_isNumeric (Number.floatLayout.isNumeric_write x)
  rw [read_append plain, Text.trim_append blank₁ bare blank₂,
    Text.trim_append blank₃ numeric blank₄, String.ofList_toList, String.ofList_toList,
    Decimal.readFloat?_write]

theorem not_mem_of_isDigits {digits : List Char} (isDigits : Decimal.IsDigits digits) :
    '=' ∉ digits :=
  fun member => absurd (isDigits _ member) (by decide)

-- No literal has an equals sign in it.
theorem not_mem_of_floatText {literal : List Char} {negative : Bool} {spelling : Spelling}
    (text : FloatText literal negative spelling) : '=' ∉ literal := by
  have notSign {sign : List Char} {negative : Bool} (signed : Decimal.Sign sign negative) :
      '=' ∉ sign := by
    cases signed <;> decide
  have notWord {text word : List Char} (same : text.map Char.toLower = word)
      (plain : '=' ∉ word) : '=' ∉ text := fun member =>
    plain (same ▸ List.mem_map_of_mem (f := Char.toLower) member)
  obtain ⟨signed, spells⟩ := text
  rw [List.mem_append, not_or]
  refine ⟨notSign signed, ?_⟩
  cases spelling with
  | infinity =>
    rcases spells with short | long
    · exact notWord short (by decide)
    · exact notWord long (by decide)
  | nan => exact notWord spells (by decide)
  | number =>
    obtain ⟨isDigits, pointed, -, marked⟩ := spells
    simp only [List.mem_append, not_or]
    refine ⟨not_mem_of_isDigits isDigits, ?_, ?_⟩
    · cases pointed with
      | none => exact List.not_mem_nil
      | point digits => simp [not_mem_of_isDigits digits]
    · cases marked with
      | none => exact List.not_mem_nil
      | marked mark signed digits =>
        rcases mark with rfl | rfl <;> simp [notSign signed, not_mem_of_isDigits digits]

theorem read_ne_ok (twice : 1 < text.toList.count '=') : read text ≠ .ok binding := by
  intro reads
  obtain ⟨named, nameTrims, valueTrims, literal, denotes⟩ := read_eq_ok_iff.mp reads
  obtain ⟨left, bare, right⟩ := valueTrims
  have none := not_mem_of_floatText literal
  rw [String.toList_ofList, List.count_append, List.count_cons_self, List.count_append,
    List.count_append, List.count_eq_zero.mpr named, List.count_eq_zero.mpr none,
    List.count_eq_zero.mpr (not_mem_of_blank left),
    List.count_eq_zero.mpr (not_mem_of_blank right)] at twice
  exact absurd twice (by decide)

/-- A binding is a name and a float literal, with the first equals sign between them. -/
theorem read_exactly :
    (∀ text, (∃ binding, read text = .ok binding) ↔
      ∃ name value literal negative spelling, text.toList = name ++ '=' :: value ∧ '=' ∉ name ∧
        Trims value literal ∧ FloatText literal negative spelling) ∧
    (∀ text binding, read text = .ok binding ↔ Notes text binding) ∧
    (∀ (name : String) (x : Float) (w₁ w₂ w₃ w₄ : List Char), '=' ∉ name.toList →
      Bare name.toList → Blank w₁ → Blank w₂ → Blank w₃ → Blank w₄ →
      read (.ofList (w₁ ++ name.toList ++ w₂ ++ '=' ::
        (w₃ ++ (Number.floatLayout.write x).toList ++ w₄))) = .ok ⟨name, x⟩) ∧
    ∀ text binding, 1 < text.toList.count '=' → read text ≠ .ok binding := by
  constructor
  · exact fun text => exists_read_iff
  constructor
  · exact fun text binding => read_eq_ok_iff
  constructor
  · exact fun name x w₁ w₂ w₃ w₄ => read_written x
  · exact fun text binding => read_ne_ok

theorem read_negative_zero : read "\u00a0x y = -0.0\u3000" = .ok ⟨"x y", -0.0⟩ ∧
    ∀ binding, read "x=1=2" ≠ .ok binding := by
  constructor
  · have written : Number.floatLayout.write (-0.0) = "-0.0" := by decide +kernel
    have bare : Bare "x y".toList := by
      constructor
      · intro c first
        obtain rfl := Option.some.inj first
        rfl
      · intro c last
        obtain rfl := Option.some.inj last
        rfl
    have blank (c : Char) (space : Text.isBlank c) : Blank [c] := by
      intro d member
      rwa [List.mem_singleton.mp member]
    have reads := read_exactly.2.2.1 "x y" (-0.0) ['\u00a0'] [' '] [' '] ['\u3000'] (by decide)
      bare (blank _ rfl) (blank _ rfl) (blank _ rfl) (blank _ rfl)
    rw [written] at reads
    exact reads
  · intro binding
    exact read_exactly.2.2.2 "x=1=2" binding (by decide)

end ExprGraph.Binding
