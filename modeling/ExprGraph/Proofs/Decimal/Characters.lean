import ExprGraph.Decimal.Layout

set_option autoImplicit false

namespace ExprGraph.Decimal

variable {digits whole fraction : List Char} {c : Char}

def IsDigits (digits : List Char) : Prop := ∀ c ∈ digits, c.isDigit

theorem isDigits_toDigits (n : Nat) : IsDigits (Nat.toDigits 10 n) :=
  fun _ member => Nat.isDigit_of_mem_toDigits (by decide) (Nat.le_refl 10) member

theorem isDigits_replicate (n : Nat) : IsDigits (List.replicate n '0') := by
  intro c member
  rw [List.eq_of_mem_replicate member]
  rfl

theorem IsDigits.append (left : IsDigits whole) (right : IsDigits fraction) :
    IsDigits (whole ++ fraction) :=
  fun c member => (List.mem_append.mp member).elim (left c) (right c)

theorem exists_toDigits_eq (n : Nat) : ∃ c rest, Nat.toDigits 10 n = c :: rest ∧ c.isDigit := by
  obtain ⟨c, rest, digits⟩ := List.exists_cons_of_ne_nil (Nat.toDigits_ne_nil (n := n) (b := 10))
  exact ⟨c, rest, digits, isDigits_toDigits n c (digits ▸ List.mem_cons_self)⟩

theorem toList_toString (i : Int) : (toString i).toList =
    if 0 ≤ i then Nat.toDigits 10 i.toNat else '-' :: Nat.toDigits 10 (-i).toNat := by
  rw [Int.toString_eq_repr, Int.repr_eq_if]
  split
  · exact Nat.toList_repr
  · simp [Nat.toList_repr]

theorem mem_toString {i : Int} (member : c ∈ (toString i).toList) : c.isDigit ∨ c = '-' := by
  rw [toList_toString] at member
  split at member
  · exact .inl (isDigits_toDigits _ c member)
  · rcases List.mem_cons.mp member with rfl | later
    · exact .inr rfl
    · exact .inl (isDigits_toDigits _ c later)

theorem exists_isAlphanum_mem_toString (i : Int) : ∃ c ∈ (toString i).toList, c.isAlphanum := by
  have digit (n : Nat) : ∃ c ∈ Nat.toDigits 10 n, c.isAlphanum := by
    obtain ⟨c, rest, digits, digit⟩ := exists_toDigits_eq n
    exact ⟨c, digits ▸ List.mem_cons_self, by simp [Char.isAlphanum, digit]⟩
  rw [toList_toString]
  split
  · exact digit _
  · obtain ⟨c, member, alphanumeric⟩ := digit (-i).toNat
    exact ⟨c, List.mem_cons_of_mem _ member, alphanumeric⟩

def IsNumeric (text : List Char) : Prop := ∀ c ∈ text, c.isAlphanum ∨ c = '-' ∨ c = '.'

theorem isNumeric_append : IsNumeric (whole ++ fraction) ↔ IsNumeric whole ∧ IsNumeric fraction :=
  List.forall_mem_append

theorem isNumeric_cons :
    IsNumeric (c :: digits) ↔ (c.isAlphanum ∨ c = '-' ∨ c = '.') ∧ IsNumeric digits :=
  List.forall_mem_cons

theorem isNumeric_of_isAlphanum (word : digits.all Char.isAlphanum) : IsNumeric digits :=
  fun c member => .inl (List.all_eq_true.mp word c member)

theorem IsDigits.isNumeric (isDigits : IsDigits digits) : IsNumeric digits :=
  fun c member => .inl (by simp [Char.isAlphanum, isDigits c member])

theorem isNumeric_toString (i : Int) : IsNumeric (toString i).toList := by
  intro c member
  rcases mem_toString member with digit | minus
  · exact .inl (by simp [Char.isAlphanum, digit])
  · exact .inr (.inl minus)

namespace Layout

variable (layout : Layout)

theorem isNumeric_writePositional (isDigits : IsDigits digits) (leading : Int) :
    IsNumeric (layout.writePositional digits leading) := by
  have point : '.'.isAlphanum ∨ '.' = '-' ∨ '.' = '.' := .inr (.inr rfl)
  have zero : '0'.isAlphanum ∨ '0' = '-' ∨ '0' = '.' := .inl rfl
  cases leading with
  | negSucc zeros =>
    exact isNumeric_append.mpr ⟨isNumeric_cons.mpr ⟨zero, isNumeric_cons.mpr ⟨point,
      (isDigits_replicate zeros).isNumeric⟩⟩, isDigits.isNumeric⟩
  | ofNat k =>
    have whole : IsDigits (digits.take (k + 1)) := fun c member =>
      isDigits c (List.mem_of_mem_take member)
    have fraction : IsDigits (digits.drop (k + 1)) := fun c member =>
      isDigits c (List.mem_of_mem_drop member)
    have filled (zeros : Nat) := (whole.append (isDigits_replicate zeros)).isNumeric
    simp only [writePositional]
    split
    · exact isNumeric_append.mpr ⟨filled _, isNumeric_cons.mpr ⟨point, fraction.isNumeric⟩⟩
    · split
      · exact isNumeric_append.mpr
          ⟨filled _, isNumeric_cons.mpr ⟨point, (isDigits_replicate 1).isNumeric⟩⟩
      · exact filled _

theorem isNumeric_writeScientific (isDigits : IsDigits digits) (leading : Int) :
    IsNumeric (writeScientific digits leading) := by
  have exponent : IsNumeric ('e' :: (toString leading).toList) :=
    isNumeric_cons.mpr ⟨.inl rfl, isNumeric_toString leading⟩
  refine isNumeric_append.mpr ⟨?_, exponent⟩
  match digits with
  | [] | [_] => exact isDigits.isNumeric
  | first :: second :: rest =>
    have parts := isNumeric_cons.mp isDigits.isNumeric
    exact isNumeric_cons.mpr ⟨parts.1, isNumeric_cons.mpr ⟨.inr (.inr rfl), parts.2⟩⟩

theorem isNumeric_writeMagnitude (magnitude : Ieee.Magnitude) :
    IsNumeric (layout.writeMagnitude magnitude) := by
  cases magnitude with
  | finite m e =>
    cases m with
    | zero =>
      rw [writeMagnitude]
      have zero : IsNumeric ['0'] := (isDigits_replicate 1).isNumeric
      split
      · exact isNumeric_append.mpr ⟨zero, isNumeric_cons.mpr ⟨.inr (.inr rfl), zero⟩⟩
      · exact zero
    | succ k =>
      rw [writeMagnitude, writeDecimal]
      · split
        · exact layout.isNumeric_writePositional (isDigits_toDigits _) _
        · exact isNumeric_writeScientific (isDigits_toDigits _) _
      · simp
  | infinite => exact isNumeric_of_isAlphanum rfl
  | nan => exact isNumeric_of_isAlphanum rfl

theorem point_mem_writePositional (keepsFraction : layout.keepsFraction) (leading : Int) :
    '.' ∈ layout.writePositional digits leading := by
  cases leading with
  | negSucc zeros => simp [writePositional]
  | ofNat k =>
    simp only [writePositional, keepsFraction, if_true]
    split <;> simp

theorem exists_mark_mem (keepsFraction : layout.keepsFraction) (magnitude : Ieee.Magnitude) :
    ∃ c ∈ layout.writeMagnitude magnitude, c.isDigit = false ∧ c ≠ '-' := by
  have point : '.'.isDigit = false ∧ '.' ≠ '-' := by decide
  cases magnitude with
  | finite m e =>
    cases m with
    | zero => exact ⟨'.', by simp [writeMagnitude, keepsFraction], point⟩
    | succ k =>
      rw [writeMagnitude, writeDecimal]
      · split
        · exact ⟨'.', layout.point_mem_writePositional keepsFraction _, point⟩
        · exact ⟨'e', by simp [writeScientific], by decide⟩
      · simp
  | infinite => exact ⟨'i', by simp [writeMagnitude], by decide⟩
  | nan => exact ⟨'N', by simp [writeMagnitude], by decide⟩

theorem exists_isDigit_writeDecimal (d : Decimal) :
    ∃ c rest, layout.writeDecimal d = c :: rest ∧ c.isDigit := by
  obtain ⟨first, rest, digits, digit⟩ := exists_toDigits_eq d.coefficient
  simp only [writeDecimal, digits]
  generalize d.exponent + _ = leading
  split
  · cases leading with
    | negSucc zeros => exact ⟨_, _, rfl, rfl⟩
    | ofNat k =>
      simp only [writePositional, List.take_succ_cons, List.cons_append]
      split
      · exact ⟨_, _, rfl, digit⟩
      · split <;> exact ⟨_, _, rfl, digit⟩
  · cases rest <;> exact ⟨_, _, rfl, digit⟩

theorem exists_writeMagnitude_eq (magnitude : Ieee.Magnitude) :
    ∃ c rest, layout.writeMagnitude magnitude = c :: rest ∧
      (c.isDigit ∨ c = 'i' ∨ c = 'N') := by
  cases magnitude with
  | finite m e =>
    cases m with
    | zero =>
      rw [writeMagnitude]
      split <;> exact ⟨_, _, rfl, .inl rfl⟩
    | succ k =>
      obtain ⟨c, rest, text, digit⟩ := layout.exists_isDigit_writeDecimal (shortest (k + 1) e)
      exact ⟨c, rest, text, .inl digit⟩
  | infinite => exact ⟨'i', ['n', 'f'], rfl, .inr (.inl rfl)⟩
  | nan => exact ⟨'N', ['a', 'N'], rfl, .inr (.inr rfl)⟩

end Layout

end ExprGraph.Decimal
