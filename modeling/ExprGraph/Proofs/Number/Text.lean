import ExprGraph.Number
import ExprGraph.Proofs.Decimal.RoundTrip

set_option autoImplicit false

namespace ExprGraph

namespace Decimal.Layout

variable (layout : Layout) (x : Float)

theorem toList_write : ∃ signed : Bool, (layout.write x).toList =
    if signed then '-' :: layout.writeMagnitude (Ieee.magnitude x)
    else layout.writeMagnitude (Ieee.magnitude x) :=
  ⟨_, by rw [write, String.toList_ofList]⟩

theorem isNumeric_write : IsNumeric (layout.write x).toList := by
  obtain ⟨signed, text⟩ := layout.toList_write x
  have magnitude := layout.isNumeric_writeMagnitude (Ieee.magnitude x)
  rw [text]
  split
  · exact isNumeric_cons.mpr ⟨.inr (.inl rfl), magnitude⟩
  · exact magnitude

theorem mem_write_of_mem {c : Char} (member : c ∈ layout.writeMagnitude (Ieee.magnitude x)) :
    c ∈ (layout.write x).toList := by
  obtain ⟨signed, text⟩ := layout.toList_write x
  rw [text]
  split
  · exact List.mem_cons_of_mem _ member
  · exact member

end Decimal.Layout

namespace Number

open Decimal (IsNumeric)

variable {v w : Number} {word : String}

def candidates (word : String) : List Number :=
  [.bool true, .bool false] ++
    (Decimal.readInteger? word.toList).toList.map (fun i => .int (.ofInt i)) ++
    (Decimal.readFloat? word).toList.map .float

def ofText? (word : String) : Option Number := (candidates word).find? fun v => v.render = word

theorem mem_candidates (v : Number) : v ∈ candidates v.render := by
  cases v with
  | bool b => cases b <;> simp [candidates]
  | int i =>
    have read := Decimal.readInteger?_toString i.toInt
    simp only [candidates, render, read]
    simp
  | float x =>
    have read := Decimal.readFloat?_write floatLayout x
    simp only [candidates, render, read]
    simp

theorem isNumeric_render (v : Number) : IsNumeric v.render.toList := by
  cases v with
  | bool b => cases b <;> exact Decimal.isNumeric_of_isAlphanum rfl
  | int i => exact Decimal.isNumeric_toString i.toInt
  | float x => exact floatLayout.isNumeric_write x

theorem exists_isAlphanum_mem_render (v : Number) : ∃ c ∈ v.render.toList, c.isAlphanum := by
  cases v with
  | bool b => cases b <;> exact ⟨'e', by simp [render], rfl⟩
  | int i => exact Decimal.exists_isAlphanum_mem_toString i.toInt
  | float x =>
    obtain ⟨c, rest, text, first⟩ := floatLayout.exists_writeMagnitude_eq (Ieee.magnitude x)
    refine ⟨c, floatLayout.mem_write_of_mem x (text ▸ List.mem_cons_self), ?_⟩
    rcases first with digit | rfl | rfl
    · simp [Char.isAlphanum, digit]
    · rfl
    · rfl

theorem kind_eq_int_iff :
    v.kind = .int ↔ ∀ c ∈ v.render.toList, c.isDigit ∨ c = '-' := by
  cases v with
  | bool b => cases b <;> simp [kind, render]
  | int i => exact iff_of_true rfl fun c member => Decimal.mem_toString member
  | float x =>
    refine iff_of_false (by simp [kind]) fun digits => ?_
    obtain ⟨c, member, noDigit, noMinus⟩ := floatLayout.exists_mark_mem rfl (Ieee.magnitude x)
    rcases digits c (floatLayout.mem_write_of_mem x member) with digit | minus
    · rw [noDigit] at digit
      contradiction
    · exact noMinus minus

theorem kind_eq_bool_iff :
    v.kind = .bool ↔ v.render.toList.head? = some 't' ∨ v.render.toList.head? = some 'f' := by
  cases v with
  | bool b => cases b <;> simp [kind, render]
  | int i =>
    refine iff_of_false (by simp [kind]) (not_or.mpr ⟨fun first => ?_, fun first => ?_⟩) <;>
    · have digit := Decimal.mem_toString (List.mem_of_head? first)
      revert digit
      decide
  | float x =>
    obtain ⟨c, rest, text, first⟩ := floatLayout.exists_writeMagnitude_eq (Ieee.magnitude x)
    obtain ⟨signed, signedText⟩ := floatLayout.toList_write x
    refine iff_of_false (by simp [kind]) ?_
    rw [render, signedText, text]
    cases signed with
    | true => simp
    | false =>
      rintro (first | first) <;> simp_all

theorem render_injective (same : v.render = w.render) : v = w := by
  have int : v.kind = .int ↔ w.kind = .int := by rw [kind_eq_int_iff, kind_eq_int_iff, same]
  have bool : v.kind = .bool ↔ w.kind = .bool := by rw [kind_eq_bool_iff, kind_eq_bool_iff, same]
  match v, w with
  | .bool a, .bool b => cases a <;> cases b <;> simp_all [render]
  | .int i, .int j =>
    have read := Decimal.readInteger?_toString i.toInt
    rw [show toString i.toInt = toString j.toInt from same, Decimal.readInteger?_toString] at read
    rw [Int64.toInt_inj.mp (Option.some.inj read)]
  | .float x, .float y =>
    have read := Decimal.readFloat?_write floatLayout x
    rw [show floatLayout.write x = floatLayout.write y from same, Decimal.readFloat?_write] at read
    rw [Option.some.inj read]
  | .bool _, .int _ | .bool _, .float _ | .int _, .bool _ | .int _, .float _ | .float _, .bool _
  | .float _, .int _ => simp [kind] at int bool

theorem ofText?_eq_some_iff : ofText? word = some v ↔ v.render = word := by
  refine ⟨fun found => by simpa using List.find?_some found, ?_⟩
  rintro rfl
  have some : (ofText? v.render).isSome := List.find?_isSome.mpr ⟨v, mem_candidates v, by simp⟩
  obtain ⟨w, found⟩ := Option.isSome_iff_exists.mp some
  have same : w.render = v.render := by simpa using List.find?_some found
  rwa [render_injective same] at found

theorem ofText?_eq_none_iff : ofText? word = none ↔ ∀ v : Number, v.render ≠ word := by
  rw [Option.eq_none_iff_forall_ne_some]
  exact forall_congr' fun v => not_congr ofText?_eq_some_iff

end Number

end ExprGraph
