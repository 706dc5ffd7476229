import ExprGraph.Proofs.Json.Scan

set_option autoImplicit false

namespace ExprGraph.Json

theorem CharText.ne_nil {text : List Char} {c : Char} (written : CharText text c) : text ≠ [] := by
  cases written <;> simp

namespace Scan

variable {read cs text digits content : List Char} {ts : List Token} {high : Option Nat}
  {c : Char} {n : Nat}

theorem run_unit (unit : UnitText digits n) (cs : List Char) :
    run ⟨.unit read high 0 0, ts⟩ (digits ++ cs) = run (endUnit ⟨.between, ts⟩ read high n) cs := by
  obtain ⟨first, second, third, fourth⟩ := unit
  simp [run_cons, step, first, second, third, fourth, enter, endUnit, stop]

theorem run_escaped_unit (cs : List Char) :
    run ⟨.text read, ts⟩ ('\\' :: 'u' :: cs) = run ⟨.unit read none 0 0, ts⟩ cs := by
  simp [run_cons, step, enter]

theorem run_second_unit (first : Nat) (cs : List Char) :
    run ⟨.pair read first, ts⟩ ('\\' :: 'u' :: cs) = run ⟨.unit read (some first) 0 0, ts⟩ cs := by
  simp [run_cons, step, enter]

theorem run_char (written : CharText text c) (cs : List Char) :
    run ⟨.text read, ts⟩ (text ++ cs) = run ⟨.text (c :: read), ts⟩ cs := by
  cases written with
  | plain visible quote backslash =>
    have large : ¬ c.toNat < 0x20 := Nat.not_lt.mpr visible
    simp [run_cons, step, large, enter]
  | short short =>
    rename_i mark
    have notUnit : mark ≠ 'u' := by
      rintro rfl
      simp [unescape?] at short
    simp [run_cons, step, notUnit, short, enter]
  | unit digits valid =>
    rw [List.cons_append, List.cons_append, run_escaped_unit, run_unit digits]
    simp [endUnit, valid, enter]
  | pair first second leastHigh greatestHigh leastLow greatestLow =>
    rename_i firstDigits secondDigits high low
    have upper : ¬ (high < 0xD800 ∨ 0xDFFF < high) := by omega
    have waits : endUnit ⟨.between, ts⟩ read none high = ⟨.pair read high, ts⟩ := by
      simp [endUnit, upper, greatestHigh, enter]
    simp only [List.cons_append, List.append_assoc]
    rw [run_escaped_unit, run_unit first, waits, run_second_unit, run_unit second]
    simp [endUnit, leastLow, greatestLow, enter]

theorem run_string (written : StringText text content) (cs : List Char) :
    run ⟨.text read, ts⟩ (text ++ '"' :: cs) =
      run ⟨.between, .scalar (.text (.ofList (read.reverse ++ content))) :: ts⟩ cs := by
  induction written generalizing read with
  | nil => simp [run_cons, step, emit]
  | cons char rest ih =>
    rw [List.append_assoc, run_char char, ih]
    simp

theorem exists_hexDigit {k value : Nat} (fine : .fault ∉ run ⟨.unit read high k value, ts⟩ cs) :
    ∃ c rest d, cs = c :: rest ∧ hexDigit? c = some d := by
  cases cs with
  | nil => exact absurd (fault_mem_run_stop _ []) fine
  | cons c rest =>
    cases digit : hexDigit? c with
    | some d => exact ⟨c, rest, d, rfl, digit⟩
    | none =>
      apply absurd _ fine
      simpa [run_cons, step, digit] using fault_mem_run_stop _ rest

theorem exists_unit (fine : .fault ∉ run ⟨.unit read high 0 0, ts⟩ cs) :
    ∃ digits n rest, cs = digits ++ rest ∧ UnitText digits n := by
  obtain ⟨a, cs, w, rfl, first⟩ := exists_hexDigit fine
  simp only [run_cons, step, first] at fine
  obtain ⟨b, cs, x, rfl, second⟩ := exists_hexDigit fine
  simp only [run_cons, step, second] at fine
  obtain ⟨c, cs, y, rfl, third⟩ := exists_hexDigit fine
  simp only [run_cons, step, third] at fine
  obtain ⟨d, cs, z, rfl, fourth⟩ := exists_hexDigit fine
  exact ⟨[a, b, c, d], _, cs, rfl, .intro first second third fourth⟩

-- The upper half of a pair waits for the lower one.
theorem exists_pair {first : Nat} (fine : .fault ∉ run ⟨.pair read first, ts⟩ cs) :
    ∃ digits n rest, cs = '\\' :: 'u' :: (digits ++ rest) ∧ UnitText digits n ∧
      0xDC00 ≤ n ∧ n ≤ 0xDFFF := by
  cases cs with
  | nil => exact absurd (fault_mem_run_stop _ []) fine
  | cons c cs =>
    by_cases backslash : c = '\\'
    case neg =>
      apply absurd _ fine
      simpa [run_cons, step, backslash] using fault_mem_run_stop _ cs
    subst backslash
    cases cs with
    | nil => exact absurd (fault_mem_run_stop _ []) fine
    | cons d cs =>
      by_cases mark : d = 'u'
      case neg =>
        apply absurd _ fine
        simpa [run_cons, step, enter, mark] using fault_mem_run_stop _ cs
      subst mark
      rw [run_second_unit] at fine
      obtain ⟨digits, n, rest, rfl, unit⟩ := exists_unit fine
      rw [run_unit unit] at fine
      by_cases low : 0xDC00 ≤ n ∧ n ≤ 0xDFFF
      case neg =>
        apply absurd _ fine
        simpa [endUnit, low] using fault_mem_run_stop _ rest
      exact ⟨digits, n, rest, rfl, unit, low⟩

theorem exists_escaped (fine : .fault ∉ run ⟨.escape read, ts⟩ cs) :
    ∃ text c rest, '\\' :: cs = text ++ rest ∧ CharText text c := by
  cases cs with
  | nil => exact absurd (fault_mem_run_stop _ []) fine
  | cons mark cs =>
    by_cases notUnit : mark ≠ 'u'
    · cases short : unescape? mark with
      | some c => exact ⟨['\\', mark], c, cs, rfl, .short short⟩
      | none =>
        apply absurd _ fine
        simpa [run_cons, step, notUnit, short] using fault_mem_run_stop _ cs
    · obtain rfl := not_ne_iff.mp notUnit
      have entered : run ⟨.escape read, ts⟩ ('u' :: cs) = run ⟨.unit read none 0 0, ts⟩ cs := by
        simp [run_cons, step, enter]
      rw [entered] at fine
      obtain ⟨digits, n, rest, rfl, unit⟩ := exists_unit fine
      rw [run_unit unit] at fine
      by_cases single : n < 0xD800 ∨ 0xDFFF < n
      · exact ⟨'\\' :: 'u' :: digits, _, rest, rfl, .unit unit single⟩
      · by_cases upper : n < 0xDC00
        case neg =>
          apply absurd _ fine
          simpa [endUnit, single, upper] using fault_mem_run_stop _ rest
        have waits : endUnit ⟨.between, ts⟩ read none n = ⟨.pair read n, ts⟩ := by
          simp [endUnit, single, upper, enter]
        rw [waits] at fine
        obtain ⟨second, low, rest, rfl, lower, least, greatest⟩ := exists_pair fine
        have pair := CharText.pair unit lower (by omega) upper least greatest
        exact ⟨_, _, rest, by simp, pair⟩

theorem exists_char (fine : .fault ∉ run ⟨.text read, ts⟩ cs) :
    (∃ rest, cs = '"' :: rest) ∨ ∃ text c rest, cs = text ++ rest ∧ CharText text c := by
  cases cs with
  | nil => exact absurd (fault_mem_run_stop _ []) fine
  | cons c cs =>
    by_cases quote : c = '"'
    · exact .inl ⟨cs, by rw [quote]⟩
    · right
      by_cases backslash : c = '\\'
      · subst backslash
        have escaped : .fault ∉ run ⟨.escape read, ts⟩ cs := by
          simpa [run_cons, step, enter] using fine
        exact exists_escaped escaped
      · by_cases control : c.toNat < 0x20
        · apply absurd _ fine
          simpa [run_cons, step, quote, backslash, control] using fault_mem_run_stop _ cs
        · exact ⟨[c], c, cs, rfl, .plain (Nat.not_lt.mp control) quote backslash⟩

theorem exists_string (fine : .fault ∉ run ⟨.text read, ts⟩ cs) :
    ∃ text content rest, cs = text ++ '"' :: rest ∧ StringText text content := by
  induction length : cs.length using Nat.strong_induction_on generalizing cs read with
  | _ n ih =>
    rcases exists_char fine with ⟨rest, rfl⟩ | ⟨text, c, rest, rfl, written⟩
    · exact ⟨[], [], rest, rfl, .nil⟩
    · have shorter : rest.length < n := by
        have positive := List.length_pos_of_ne_nil written.ne_nil
        rw [List.length_append] at length
        omega
      rw [run_char written] at fine
      obtain ⟨later, content, rest, rfl, string⟩ := ih rest.length shorter fine rfl
      exact ⟨text ++ later, c :: content, rest, by simp, .cons written string⟩

end Scan

end ExprGraph.Json
