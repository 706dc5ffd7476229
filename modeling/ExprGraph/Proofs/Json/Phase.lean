import ExprGraph.Json.Token
import ExprGraph.Proofs.Json.Grammar

set_option autoImplicit false

namespace ExprGraph.Json

open Decimal (ExponentText FractionText IsDigits)

theorem all_isDigit_append {whole tail fraction : List Char} {exponent : Int}
    (leading : Leading whole) (trailing : Trailing tail fraction exponent) :
    (whole ++ tail).all Char.isDigit = decide (tail = []) := by
  have digits : whole.all Char.isDigit = true := List.all_eq_true.mpr leading.digits
  rw [List.all_append, digits, Bool.true_and]
  cases tail with
  | nil => rfl
  | cons c rest => simp [trailing.head_not_digit c rfl]

namespace Phase

variable {phase : Phase} {c : Char} {cs : List Char}

def Accepts (phase : Phase) (cs : List Char) : Prop :=
  ∃ last, cs.foldlM Phase.next? phase = some last ∧ last.isComplete

theorem accepts_nil : phase.Accepts [] ↔ phase.isComplete := by
  constructor
  · rintro ⟨last, ended, complete⟩
    obtain rfl := Option.some.inj ended
    exact complete
  · exact fun complete => ⟨phase, rfl, complete⟩

theorem accepts_cons : phase.Accepts (c :: cs) ↔ ∃ next, phase.next? c = some next ∧
    next.Accepts cs := by
  simp only [Accepts, List.foldlM_cons, Option.bind_eq_bind, Option.bind_eq_some_iff]
  constructor
  · rintro ⟨last, ⟨next, step, path⟩, complete⟩
    exact ⟨next, step, last, path, complete⟩
  · rintro ⟨next, step, last, path, complete⟩
    exact ⟨last, ⟨next, step, path⟩, complete⟩

theorem accepts_exponent : Phase.exponent.Accepts cs ↔ IsDigits cs := by
  induction cs with
  | nil => simp [accepts_nil, isComplete, IsDigits]
  | cons c cs ih => simp [accepts_cons, next?, ih, IsDigits]

theorem accepts_sign : Phase.sign.Accepts cs ↔ cs ≠ [] ∧ IsDigits cs := by
  cases cs with
  | nil => simp [accepts_nil, isComplete]
  | cons c cs => simp [accepts_cons, next?, accepts_exponent, IsDigits]

theorem accepts_mark : Phase.mark.Accepts cs ↔ ∃ sign digits negative, cs = sign ++ digits ∧
    Decimal.Sign sign negative ∧ digits ≠ [] ∧ IsDigits digits := by
  constructor
  · intro accepts
    cases cs with
    | nil => simp [accepts_nil, isComplete] at accepts
    | cons c cs =>
      obtain ⟨next, step, rest⟩ := accepts_cons.mp accepts
      simp only [next?] at step
      split at step
      next signed =>
        obtain rfl := Option.some.inj step
        have digits := accepts_sign.mp rest
        rcases signed with rfl | rfl
        · exact ⟨['+'], cs, false, rfl, .plus, digits⟩
        · exact ⟨['-'], cs, true, rfl, .minus, digits⟩
      next =>
        obtain ⟨digit, next⟩ := Option.ite_none_right_eq_some.mp step
        obtain rfl := Option.some.inj next
        have digits : IsDigits (c :: cs) :=
          List.forall_mem_cons.mpr ⟨digit, accepts_exponent.mp rest⟩
        exact ⟨[], c :: cs, false, rfl, .none, List.cons_ne_nil c cs, digits⟩
  · rintro ⟨sign, digits, negative, rfl, signed, nonempty, isDigits⟩
    have afterSign := accepts_sign.mpr ⟨nonempty, isDigits⟩
    cases signed with
    | plus => exact accepts_cons.mpr ⟨.sign, rfl, afterSign⟩
    | minus => exact accepts_cons.mpr ⟨.sign, rfl, afterSign⟩
    | none =>
      obtain ⟨c, rest, rfl⟩ := List.exists_cons_of_ne_nil nonempty
      obtain ⟨digit, later⟩ := List.forall_mem_cons.mp isDigits
      have notSign : ¬ (c = '+' ∨ c = '-') := by
        rintro (rfl | rfl) <;> exact absurd digit (by decide)
      have step : Phase.mark.next? c = some .exponent := by simp [next?, notSign, digit]
      exact accepts_cons.mpr ⟨.exponent, step, accepts_exponent.mpr later⟩

-- The mark of an exponent leads to the same phase from everywhere.
theorem exists_exponentText_iff : (∃ exponent, ExponentText (c :: cs) exponent) ↔
    (c = 'e' ∨ c = 'E') ∧ Phase.mark.Accepts cs := by
  rw [accepts_mark]
  constructor
  · rintro ⟨exponent, text⟩
    cases text with
    | marked marked signed digits nonempty =>
      exact ⟨marked, _, _, _, rfl, signed, nonempty, digits⟩
  · rintro ⟨marked, sign, digits, negative, rfl, signed, nonempty, isDigits⟩
    exact ⟨_, .marked marked signed isDigits nonempty⟩

theorem not_isDigit_of_mark (marked : c = 'e' ∨ c = 'E') : c.isDigit = false ∧ c ≠ '.' := by
  rcases marked with rfl | rfl <;> decide

theorem accepts_fraction : Phase.fraction.Accepts cs ↔ ∃ digits mark exponent,
    cs = digits ++ mark ∧ IsDigits digits ∧ ExponentText mark exponent := by
  induction cs with
  | nil =>
    refine iff_of_true (accepts_nil.mpr rfl) ⟨[], [], 0, rfl, ?_, .none⟩
    simp [IsDigits]
  | cons c cs ih =>
    constructor
    · intro accepts
      obtain ⟨next, step, rest⟩ := accepts_cons.mp accepts
      by_cases digit : c.isDigit
      · obtain rfl : Phase.fraction = next := by simpa [next?, digit] using step
        obtain ⟨digits, mark, exponent, rfl, isDigits, text⟩ := ih.mp rest
        exact ⟨c :: digits, mark, exponent, rfl, List.forall_mem_cons.mpr ⟨digit, isDigits⟩, text⟩
      · have marked : (c = 'e' ∨ c = 'E') ∧ Phase.mark = next := by simpa [next?, digit] using step
        obtain ⟨exponent, text⟩ := exists_exponentText_iff.mpr ⟨marked.1, marked.2 ▸ rest⟩
        exact ⟨[], c :: cs, exponent, rfl, by simp [IsDigits], text⟩
    · rintro ⟨digits, mark, exponent, split, isDigits, text⟩
      cases digits with
      | nil =>
        rw [List.nil_append] at split
        obtain ⟨marked, rest⟩ := exists_exponentText_iff.mp ⟨exponent, split ▸ text⟩
        have step : Phase.fraction.next? c = some .mark := by
          simp [next?, marked, (not_isDigit_of_mark marked).1]
        exact accepts_cons.mpr ⟨.mark, step, rest⟩
      | cons d digits =>
        obtain ⟨rfl, rfl⟩ := List.cons.inj split
        obtain ⟨digit, later⟩ := List.forall_mem_cons.mp isDigits
        have step : Phase.fraction.next? c = some .fraction := by simp [next?, digit]
        exact accepts_cons.mpr ⟨.fraction, step, ih.mpr ⟨digits, mark, exponent, rfl, later, text⟩⟩

theorem accepts_point : Phase.point.Accepts cs ↔ ∃ digits mark exponent,
    cs = digits ++ mark ∧ digits ≠ [] ∧ IsDigits digits ∧ ExponentText mark exponent := by
  constructor
  · intro accepts
    cases cs with
    | nil => simp [accepts_nil, isComplete] at accepts
    | cons c cs =>
      obtain ⟨next, step, rest⟩ := accepts_cons.mp accepts
      obtain ⟨digit, next⟩ := Option.ite_none_right_eq_some.mp step
      obtain rfl := Option.some.inj next
      obtain ⟨digits, mark, exponent, rfl, isDigits, text⟩ := accepts_fraction.mp rest
      exact ⟨c :: digits, mark, exponent, rfl, List.cons_ne_nil c digits,
        List.forall_mem_cons.mpr ⟨digit, isDigits⟩, text⟩
  · rintro ⟨digits, mark, exponent, rfl, nonempty, isDigits, text⟩
    obtain ⟨c, rest, rfl⟩ := List.exists_cons_of_ne_nil nonempty
    obtain ⟨digit, later⟩ := List.forall_mem_cons.mp isDigits
    have step : Phase.point.next? c = some .fraction := by simp [next?, digit]
    exact accepts_cons.mpr
      ⟨.fraction, step, accepts_fraction.mpr ⟨rest, mark, exponent, rfl, later, text⟩⟩

theorem accepts_zero : Phase.zero.Accepts cs ↔ ∃ fraction exponent,
    Trailing cs fraction exponent := by
  constructor
  · intro accepts
    cases cs with
    | nil => exact ⟨[], 0, .intro .none (by simp) .none⟩
    | cons c cs =>
      obtain ⟨next, step, rest⟩ := accepts_cons.mp accepts
      by_cases point : c = '.'
      · obtain rfl : Phase.point = next := by simpa [next?, point] using step
        obtain ⟨digits, mark, exponent, rfl, nonempty, isDigits, text⟩ := accepts_point.mp rest
        rw [point]
        exact ⟨digits, exponent, .intro (.point isDigits) (by simp [nonempty]) text⟩
      · have marked : (c = 'e' ∨ c = 'E') ∧ Phase.mark = next := by simpa [next?, point] using step
        obtain ⟨exponent, text⟩ := exists_exponentText_iff.mpr ⟨marked.1, marked.2 ▸ rest⟩
        exact ⟨[], exponent, .intro .none (by simp) text⟩
  · rintro ⟨fraction, exponent, ⟨pointed, digits, text⟩⟩
    cases pointed with
    | point isDigits =>
      have nonempty : fraction ≠ [] := by simpa using digits
      exact accepts_cons.mpr ⟨.point, rfl, accepts_point.mpr
        ⟨fraction, _, exponent, rfl, nonempty, isDigits, text⟩⟩
    | none =>
      rename_i mark
      cases mark with
      | nil => exact accepts_nil.mpr rfl
      | cons c rest =>
        obtain ⟨marked, accepts⟩ := exists_exponentText_iff.mp ⟨exponent, text⟩
        have step : Phase.zero.next? c = some .mark := by
          simp [next?, marked, (not_isDigit_of_mark marked).2]
        exact accepts_cons.mpr ⟨.mark, step, accepts⟩

theorem accepts_whole : Phase.whole.Accepts cs ↔ ∃ digits tail fraction exponent,
    cs = digits ++ tail ∧ IsDigits digits ∧ Trailing tail fraction exponent := by
  induction cs with
  | nil =>
    refine iff_of_true (accepts_nil.mpr rfl) ⟨[], [], [], 0, rfl, ?_, .intro .none (by simp) .none⟩
    simp [IsDigits]
  | cons c cs ih =>
    by_cases digit : c.isDigit
    · have step : Phase.whole.next? c = some .whole := by simp [next?, digit]
      simp only [accepts_cons, step, Option.some.injEq, exists_eq_left', ih]
      constructor
      · rintro ⟨digits, tail, fraction, exponent, rfl, isDigits, trailing⟩
        exact ⟨c :: digits, tail, fraction, exponent, rfl,
          List.forall_mem_cons.mpr ⟨digit, isDigits⟩, trailing⟩
      · rintro ⟨digits, tail, fraction, exponent, split, isDigits, trailing⟩
        cases digits with
        | nil =>
          rw [List.nil_append] at split
          have stop := trailing.head_not_digit c (split ▸ rfl)
          exact absurd digit (by simp [stop])
        | cons d digits =>
          obtain ⟨rfl, rfl⟩ := List.cons.inj split
          obtain ⟨-, later⟩ := List.forall_mem_cons.mp isDigits
          exact ⟨digits, tail, fraction, exponent, rfl, later, trailing⟩
    · have same : Phase.whole.next? c = Phase.zero.next? c := by simp [next?, digit]
      rw [accepts_cons, same, ← accepts_cons, accepts_zero]
      constructor
      · rintro ⟨fraction, exponent, trailing⟩
        exact ⟨[], c :: cs, fraction, exponent, rfl, by simp [IsDigits], trailing⟩
      · rintro ⟨digits, tail, fraction, exponent, split, isDigits, trailing⟩
        cases digits with
        | nil => exact ⟨fraction, exponent, split ▸ trailing⟩
        | cons d digits =>
          obtain ⟨rfl, rfl⟩ := List.cons.inj split
          exact absurd (List.forall_mem_cons.mp isDigits).1 digit

theorem accepts_minus : Phase.minus.Accepts cs ↔ ∃ whole tail fraction exponent,
    cs = whole ++ tail ∧ Leading whole ∧ Trailing tail fraction exponent := by
  constructor
  · intro accepts
    cases cs with
    | nil => simp [accepts_nil, isComplete] at accepts
    | cons c cs =>
      obtain ⟨next, step, rest⟩ := accepts_cons.mp accepts
      by_cases zero : c = '0'
      · obtain rfl : Phase.zero = next := by simpa [next?, zero] using step
        obtain ⟨fraction, exponent, trailing⟩ := accepts_zero.mp rest
        have leading : Leading ['0'] := ⟨by simp [IsDigits], by simp, fun _ => rfl⟩
        exact ⟨['0'], cs, fraction, exponent, zero ▸ rfl, leading, trailing⟩
      · obtain ⟨digit, rfl⟩ : c.isDigit ∧ Phase.whole = next := by simpa [next?, zero] using step
        obtain ⟨digits, tail, fraction, exponent, rfl, isDigits, trailing⟩ := accepts_whole.mp rest
        have leading : Leading (c :: digits) :=
          ⟨List.forall_mem_cons.mpr ⟨digit, isDigits⟩, by simp, by simp [zero]⟩
        exact ⟨c :: digits, tail, fraction, exponent, rfl, leading, trailing⟩
  · rintro ⟨whole, tail, fraction, exponent, rfl, leading, trailing⟩
    obtain ⟨c, digits, rfl⟩ := List.exists_cons_of_ne_nil leading.nonempty
    by_cases zero : c = '0'
    · obtain ⟨-, rfl⟩ := List.cons.inj (leading.zero (by simp [zero]))
      have step : Phase.minus.next? c = some .zero := by simp [next?, zero]
      exact accepts_cons.mpr ⟨.zero, step, accepts_zero.mpr ⟨fraction, exponent, trailing⟩⟩
    · obtain ⟨digit, later⟩ := List.forall_mem_cons.mp leading.digits
      have step : Phase.minus.next? c = some .whole := by simp [next?, zero, digit]
      exact accepts_cons.mpr ⟨.whole, step,
        accepts_whole.mpr ⟨digits, tail, fraction, exponent, rfl, later, trailing⟩⟩

end Phase

namespace Numeral

variable {numeral : Numeral} {cs : List Char} {c : Char} {content : Content}

theorem exists_spells_iff : (∃ numeral, Spells (c :: cs) numeral) ↔
    ∃ first, Phase.ofFirst? c = some first ∧ first.Accepts cs := by
  have unsigned (notMinus : c ≠ '-') : (∃ first, Phase.ofFirst? c = some first ∧
      first.Accepts cs) ↔ Phase.minus.Accepts (c :: cs) := by
    rw [Phase.accepts_cons]
    simp [Phase.ofFirst?, Phase.next?, notMinus]
  constructor
  · rintro ⟨numeral, text⟩
    generalize line : c :: cs = token at text
    obtain ⟨signed, leading, trailing⟩ := text
    have accepts := Phase.accepts_minus.mpr ⟨_, _, _, _, rfl, leading, trailing⟩
    cases signed with
    | minus =>
      obtain ⟨rfl, rfl⟩ := List.cons.inj line
      exact ⟨.minus, rfl, accepts⟩
    | none =>
      rw [List.nil_append] at line
      rw [← line] at accepts
      have notMinus : c ≠ '-' := by
        apply leading.digits.head_ne rfl c
        obtain ⟨d, rest, rfl⟩ := List.exists_cons_of_ne_nil leading.nonempty
        rw [(List.cons.inj line).1]
        rfl
      exact (unsigned notMinus).mpr accepts
  · rintro ⟨first, start, accepts⟩
    by_cases minus : c = '-'
    · obtain rfl : Phase.minus = first := by simpa [Phase.ofFirst?, minus] using start
      obtain ⟨whole, tail, fraction, exponent, rfl, leading, trailing⟩ :=
        Phase.accepts_minus.mp accepts
      rw [minus]
      exact ⟨_, .intro .minus leading trailing⟩
    · obtain ⟨whole, tail, fraction, exponent, split, leading, trailing⟩ :=
        Phase.accepts_minus.mp ((unsigned minus).mp ⟨first, start, accepts⟩)
      rw [split]
      exact ⟨_, .intro .none leading trailing⟩

theorem readNumber?_eq (spells : Spells cs numeral) :
    readNumber? cs = numeral.word?.or ((readDouble? cs).map .float) := by
  obtain ⟨signed, leading, trailing⟩ := spells
  rename_i sign whole tail fraction negative exponent
  have parts : Decimal.splitSign (sign ++ (whole ++ tail)) = (negative, whole ++ tail) :=
    leading.splitSign_append signed.sign tail
  simp only [readNumber?, parts, all_isDigit_append leading trailing, Nat.one_shiftLeft, word?]
  by_cases ended : tail = []
  · subst ended
    simp only [List.append_nil, decide_true]
    split
    · rfl
    · split <;> rfl
  · simp [ended]

theorem offers_of_readNumber? (spells : Spells cs numeral)
    (read : readNumber? cs = some content) : Offers readDouble? cs content := by
  rw [readNumber?_eq spells] at read
  cases word : numeral.word? with
  | some word =>
    rw [word, Option.some_or] at read
    obtain rfl := Option.some.inj read
    exact .word spells word
  | none =>
    rw [word, Option.none_or, Option.map_eq_some_iff] at read
    obtain ⟨x, made, rfl⟩ := read
    exact .double spells word made

end Numeral

end ExprGraph.Json
