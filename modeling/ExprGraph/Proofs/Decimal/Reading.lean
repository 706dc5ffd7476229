import ExprGraph.Decimal.Reader
import ExprGraph.Proofs.Decimal.Characters
import ExprGraph.Proofs.Decimal.Shortest

set_option autoImplicit false

namespace ExprGraph.Decimal

variable {digits whole fraction tail : List Char} {c : Char} {n : Nat}

theorem ofDigitChars_append_replicate (digits : List Char) (n : Nat) :
    Nat.ofDigitChars 10 (digits ++ List.replicate n '0') 0 =
      Nat.ofDigitChars 10 digits 0 * 10 ^ n := by
  rw [Nat.ofDigitChars_append, Nat.ofDigitChars_replicate_zero, Nat.mul_comm]

theorem ofDigitChars_replicate_append (digits : List Char) (n : Nat) :
    Nat.ofDigitChars 10 (List.replicate n '0' ++ digits) 0 = Nat.ofDigitChars 10 digits 0 := by
  rw [Nat.ofDigitChars_append, Nat.ofDigitChars_replicate_zero, Nat.mul_zero]

theorem exists_eq_trimmed_append (digits : List Char) : ∃ zeros : Nat,
    digits = (digits.reverse.dropWhile (· = '0')).reverse ++ List.replicate zeros '0' := by
  refine ⟨(digits.reverse.takeWhile (· = '0')).length, ?_⟩
  have zeros := List.eq_replicate_of_mem (a := '0') (l := digits.reverse.takeWhile (· = '0'))
    fun c member => by simpa using List.mem_takeWhile_imp member
  rw [← List.reverse_replicate, ← zeros, ← List.reverse_append, List.takeWhile_append_dropWhile,
    List.reverse_reverse]

-- What trimming takes off the end is zeros, and moves the exponent by as much.
theorem toRat_ofParts (whole fraction : List Char) (exponent : Int) :
    (ofParts whole fraction exponent).toRatio.toRat =
      Nat.ofDigitChars 10 (whole ++ fraction) 0 * 10 ^ (exponent - fraction.length) := by
  obtain ⟨zeros, split⟩ := exists_eq_trimmed_append fraction
  rw [toRat_toRatio, ofParts]
  generalize (fraction.reverse.dropWhile (· = '0')).reverse = trimmed at split ⊢
  rw [split, ← List.append_assoc, ofDigitChars_append_replicate, List.length_append,
    List.length_replicate]
  push_cast
  rw [mul_assoc, ← zpow_natCast, ← zpow_add₀ (by norm_num)]
  congr 2
  ring

theorem splitSign_of_isDigit (digit : c.isDigit) (rest : List Char) :
    splitSign (c :: rest) = (false, c :: rest) := by
  unfold splitSign
  split
  next same => simp_all
  next same => simp_all
  next => rfl

theorem readDigits?_toDigits (n : Nat) : readDigits? (Nat.toDigits 10 n) = some n := by
  rw [readDigits?, if_pos, Nat.ofDigitChars_ten_toDigits]
  exact ⟨Nat.toDigits_ne_nil, List.all_eq_true.mpr (isDigits_toDigits n)⟩

theorem readInteger?_toString (i : Int) : readInteger? (toString i).toList = some i := by
  rw [toList_toString]
  split
  next positive =>
    obtain ⟨c, rest, digits, digit⟩ := exists_toDigits_eq i.toNat
    rw [readInteger?, digits, splitSign_of_isDigit digit, ← digits]
    simp [readDigits?_toDigits, positive]
  next negative =>
    rw [readInteger?, splitSign]
    simp [readDigits?_toDigits]
    omega

def ReadsAs (text : List Char) (value : ℚ) : Prop :=
  ∃ d, read? text = some d ∧ d.toRatio.toRat = value

theorem takeWhile_isDigit_append (isDigits : IsDigits digits) (tail : List Char)
    (stops : ∀ c ∈ tail.head?, c.isDigit = false) :
    (digits ++ tail).takeWhile Char.isDigit = digits ∧
      (digits ++ tail).dropWhile Char.isDigit = tail := by
  rw [List.takeWhile_append_of_pos isDigits, List.dropWhile_append_of_pos isDigits]
  cases tail with
  | nil => simp
  | cons c rest =>
    have stop : c.isDigit = false := stops c rfl
    simp [stop]

theorem IsDigits.append_inj {others rest more : List Char} (first : IsDigits digits)
    (second : IsDigits others) (ends : ∀ c ∈ rest.head?, c.isDigit = false)
    (otherEnds : ∀ c ∈ more.head?, c.isDigit = false) (same : digits ++ rest = others ++ more) :
    digits = others ∧ rest = more := by
  obtain ⟨taken, dropped⟩ := takeWhile_isDigit_append first rest ends
  obtain ⟨otherTaken, otherDropped⟩ := takeWhile_isDigit_append second more otherEnds
  rw [same] at taken dropped
  exact ⟨taken.symm.trans otherTaken, dropped.symm.trans otherDropped⟩

section

variable {exponent : Int} (wholeDigits : IsDigits whole) (nonempty : whole ≠ [])
  (ends : ∀ c ∈ tail.head?, c = 'e') (reads : readExponent? tail = some exponent)

include wholeDigits nonempty ends reads

theorem readsAs_whole :
    ReadsAs (whole ++ tail) (Nat.ofDigitChars 10 whole 0 * 10 ^ exponent) := by
  have stops : ∀ c ∈ tail.head?, c.isDigit = false := fun c first => by rw [ends c first]; rfl
  obtain ⟨taken, dropped⟩ := takeWhile_isDigit_append wholeDigits tail stops
  refine ⟨ofParts whole [] exponent, ?_, by simp [toRat_ofParts]⟩
  cases tail with
  | nil =>
    simp only [read?, taken, dropped]
    simp [nonempty, reads]
  | cons c rest =>
    obtain rfl := ends c rfl
    simp [read?, taken, dropped, nonempty, reads]

theorem readsAs_point (fractionDigits : IsDigits fraction) :
    ReadsAs (whole ++ '.' :: (fraction ++ tail))
      (Nat.ofDigitChars 10 (whole ++ fraction) 0 * 10 ^ (exponent - fraction.length)) := by
  have stops : ∀ c ∈ tail.head?, c.isDigit = false := fun c first => by rw [ends c first]; rfl
  obtain ⟨taken, dropped⟩ := takeWhile_isDigit_append wholeDigits ('.' :: (fraction ++ tail))
    fun c first => by obtain rfl := Option.some.inj first; rfl
  obtain ⟨fractionTaken, fractionDropped⟩ := takeWhile_isDigit_append fractionDigits tail stops
  refine ⟨ofParts whole fraction exponent, ?_, toRat_ofParts ..⟩
  simp [read?, taken, dropped, fractionTaken, fractionDropped, nonempty, reads]

end

theorem readsAs_digits (isDigits : IsDigits digits) (nonempty : digits ≠ []) :
    ReadsAs digits (Nat.ofDigitChars 10 digits 0) := by
  have reads : ReadsAs (digits ++ []) _ := readsAs_whole isDigits nonempty (by simp) rfl
  simpa using reads

theorem readsAs_fraction (wholeDigits : IsDigits whole) (nonempty : whole ≠ [])
    (fractionDigits : IsDigits fraction) : ReadsAs (whole ++ '.' :: fraction)
      (Nat.ofDigitChars 10 (whole ++ fraction) 0 * 10 ^ (-fraction.length : Int)) := by
  have reads : ReadsAs (whole ++ '.' :: (fraction ++ [])) _ :=
    readsAs_point wholeDigits nonempty (by simp) rfl fractionDigits
  simpa using reads

namespace Layout

theorem readsAs_padded (isDigits : IsDigits digits) (nonempty : digits ≠ []) (zeros : Nat) :
    ReadsAs (digits ++ List.replicate zeros '0')
      (Nat.ofDigitChars 10 digits 0 * 10 ^ (zeros : Int)) := by
  have reads := readsAs_digits (isDigits.append (isDigits_replicate zeros))
    (List.append_ne_nil_of_left_ne_nil nonempty _)
  rw [ofDigitChars_append_replicate] at reads
  simpa using reads

theorem readsAs_padded_point (isDigits : IsDigits digits) (nonempty : digits ≠ []) (zeros : Nat) :
    ReadsAs (digits ++ List.replicate zeros '0' ++ ['.', '0'])
      (Nat.ofDigitChars 10 digits 0 * 10 ^ (zeros : Int)) := by
  have reads := readsAs_fraction (isDigits.append (isDigits_replicate zeros))
    (List.append_ne_nil_of_left_ne_nil nonempty _) (isDigits_replicate 1)
  rw [ofDigitChars_append_replicate, ofDigitChars_append_replicate] at reads
  simpa using reads

theorem readsAs_leading_zeros (isDigits : IsDigits digits) (nonempty : digits ≠ []) (zeros : Nat) :
    ReadsAs ('0' :: '.' :: List.replicate zeros '0' ++ digits)
      (Nat.ofDigitChars 10 digits 0 * 10 ^ (Int.negSucc zeros - (digits.length - 1 : Nat))) := by
  have length := List.length_pos_of_ne_nil nonempty
  have reads := readsAs_fraction (isDigits_replicate 1) (List.cons_ne_nil _ _)
    ((isDigits_replicate zeros).append isDigits)
  have exponent : Int.negSucc zeros - (digits.length - 1 : Nat) =
      -(List.replicate zeros '0' ++ digits).length := by
    rw [List.length_append, List.length_replicate]
    omega
  rw [← List.append_assoc, ← List.replicate_add, ofDigitChars_replicate_append, ← exponent]
    at reads
  exact reads

theorem readsAs_inner_point (isDigits : IsDigits digits) {k : Nat} (longer : k + 1 < digits.length) :
    ReadsAs (digits.take (k + 1) ++ '.' :: digits.drop (k + 1))
      (Nat.ofDigitChars 10 digits 0 * 10 ^ ((k : Int) - (digits.length - 1 : Nat))) := by
  have nonempty : digits.take (k + 1) ≠ [] := by
    intro empty
    have length := congrArg List.length empty
    rw [List.length_take, List.length_nil] at length
    omega
  have reads := readsAs_fraction
    (fun c member => isDigits c (List.mem_of_mem_take (i := k + 1) member)) nonempty
    (fun c member => isDigits c (List.mem_of_mem_drop (i := k + 1) member))
  have exponent : (k : Int) - (digits.length - 1 : Nat) = -(digits.drop (k + 1)).length := by
    rw [List.length_drop]
    omega
  rw [List.take_append_drop, ← exponent] at reads
  exact reads

theorem readsAs_writePositional (layout : Layout) (isDigits : IsDigits digits)
    (nonempty : digits ≠ []) (leading : Int) :
    ReadsAs (layout.writePositional digits leading)
      (Nat.ofDigitChars 10 digits 0 * 10 ^ (leading - (digits.length - 1 : Nat))) := by
  have length := List.length_pos_of_ne_nil nonempty
  cases leading with
  | negSucc zeros => exact readsAs_leading_zeros isDigits nonempty zeros
  | ofNat k =>
    simp only [writePositional, Int.ofNat_eq_natCast]
    split
    next more =>
      have longer : k + 1 < digits.length := by simpa using more
      have full : k + 1 - (digits.take (k + 1)).length = 0 := by
        rw [List.length_take]
        omega
      rw [full, List.replicate_zero, List.append_nil]
      exact readsAs_inner_point isDigits longer
    next less =>
      have shorter : digits.length ≤ k + 1 := by simpa using less
      have exponent : (k : Int) - (digits.length - 1 : Nat) = (k + 1 - digits.length : Nat) := by
        omega
      rw [List.take_of_length_le shorter, exponent]
      split
      · exact readsAs_padded_point isDigits nonempty _
      · exact readsAs_padded isDigits nonempty _

theorem readsAs_writeScientific (isDigits : IsDigits digits) (nonempty : digits ≠ [])
    (leading : Int) :
    ReadsAs (writeScientific digits leading)
      (Nat.ofDigitChars 10 digits 0 * 10 ^ (leading - (digits.length - 1 : Nat))) := by
  have exponent : readExponent? ('e' :: (toString leading).toList) = some leading := by
    rw [readExponent?, if_pos (.inl rfl), readInteger?_toString]
  match digits, nonempty with
  | [single], _ =>
    have reads := readsAs_whole isDigits (by simp) (by simp) exponent
    simpa [writeScientific] using reads
  | first :: second :: rest, _ =>
    have parts : IsDigits [first] ∧ IsDigits (second :: rest) :=
      ⟨fun c member => isDigits c (by simp_all), fun c member => isDigits c (by simp_all)⟩
    have reads := readsAs_point parts.1 (by simp) (by simp) exponent parts.2
    simpa [writeScientific] using reads

theorem readsAs_writeDecimal (layout : Layout) (d : Decimal) :
    ReadsAs (layout.writeDecimal d) d.toRatio.toRat := by
  have value : d.toRatio.toRat = Nat.ofDigitChars 10 (Nat.toDigits 10 d.coefficient) 0 *
      10 ^ (d.exponent + ((Nat.toDigits 10 d.coefficient).length - 1 : Nat) -
        ((Nat.toDigits 10 d.coefficient).length - 1 : Nat)) := by
    rw [toRat_toRatio, Nat.ofDigitChars_ten_toDigits, add_sub_cancel_right]
  rw [value]
  simp only [writeDecimal]
  split
  · exact layout.readsAs_writePositional (isDigits_toDigits _) Nat.toDigits_ne_nil _
  · exact readsAs_writeScientific (isDigits_toDigits _) Nat.toDigits_ne_nil _

end Layout

end ExprGraph.Decimal
