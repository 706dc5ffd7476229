import ExprGraph.Proofs.Decimal.Nearest

set_option autoImplicit false

namespace ExprGraph.Decimal

open Ieee (binary64 Rounds)

inductive Sign : List Char → Bool → Prop where
  | none : Sign [] false
  | plus : Sign ['+'] false
  | minus : Sign ['-'] true

inductive ExponentText : List Char → Int → Prop where
  | none : ExponentText [] 0
  | marked {mark : Char} {sign digits : List Char} {negative : Bool} :
      mark = 'e' ∨ mark = 'E' → Sign sign negative → IsDigits digits → digits ≠ [] →
      ExponentText (mark :: (sign ++ digits))
        (if negative then -Nat.ofDigitChars 10 digits 0 else Nat.ofDigitChars 10 digits 0)

inductive FractionText : List Char → List Char → Prop where
  | none : FractionText [] []
  | point {digits : List Char} : IsDigits digits → FractionText ('.' :: digits) digits

inductive NumberText : List Char → List Char → List Char → Int → Prop where
  | intro {whole point fraction mark : List Char} {exponent : Int} : IsDigits whole →
      FractionText point fraction → whole ++ fraction ≠ [] → ExponentText mark exponent →
      NumberText (whole ++ (point ++ mark)) whole fraction exponent

inductive Spelling where
  | number (whole fraction : List Char) (exponent : Int)
  | infinity
  | nan

namespace Spelling

def Spells (text : List Char) : Spelling → Prop
  | number whole fraction exponent => NumberText text whole fraction exponent
  | infinity =>
    text.map Char.toLower = "inf".toList ∨ text.map Char.toLower = "infinity".toList
  | nan => text.map Char.toLower = "nan".toList

def Denotes (bits : Nat) : Spelling → Prop
  | number whole fraction exponent =>
    Rounds (Nat.ofDigitChars 10 (whole ++ fraction) 0 * 10 ^ (exponent - fraction.length))
      bits
  | infinity => bits = binary64.infinity
  | nan => bits = binary64.nan

end Spelling

inductive FloatText : List Char → Bool → Spelling → Prop where
  | intro {sign text : List Char} {negative : Bool} {spelling : Spelling} : Sign sign negative →
      spelling.Spells text → FloatText (sign ++ text) negative spelling

variable {cs sign digits whole fraction : List Char} {negative : Bool} {exponent : Int} {n : Nat}

theorem exists_sign {unsigned : List Char} (parts : splitSign cs = (negative, unsigned)) :
    ∃ sign, Sign sign negative ∧ cs = sign ++ unsigned := by
  unfold splitSign at parts
  split at parts
  next rest =>
    cases parts
    exact ⟨['-'], .minus, rfl⟩
  next rest =>
    cases parts
    exact ⟨['+'], .plus, rfl⟩
  next =>
    cases parts
    exact ⟨[], .none, rfl⟩

theorem splitSign_append (signed : Sign sign negative)
    (unsigned : ∀ c ∈ cs.head?, c ≠ '-' ∧ c ≠ '+') : splitSign (sign ++ cs) = (negative, cs) := by
  cases signed with
  | minus => rfl
  | plus => rfl
  | none =>
    cases cs with
    | nil => rfl
    | cons c rest =>
      obtain ⟨minus, plus⟩ := unsigned c rfl
      simp [splitSign, minus, plus]

theorem readDigits?_eq_some_iff :
    readDigits? cs = some n ↔ cs ≠ [] ∧ IsDigits cs ∧ Nat.ofDigitChars 10 cs 0 = n := by
  unfold readDigits?
  rw [Option.ite_none_right_eq_some, List.all_eq_true, Option.some.injEq, and_assoc]
  rfl

-- Neither a sign nor the mark of an exponent nor a point is a digit.
theorem IsDigits.head_ne (isDigits : IsDigits cs) {d : Char} (other : d.isDigit = false) :
    ∀ c ∈ cs.head?, c ≠ d := by
  intro c first same
  have digit := isDigits c (List.mem_of_mem_head? first)
  rw [same, other] at digit
  contradiction

theorem readInteger?_eq (cs : List Char) :
    readInteger? cs = (readDigits? (splitSign cs).2).map fun (n : Nat) =>
      if (splitSign cs).1 then -(n : Int) else n := by
  generalize parts : splitSign cs = signed
  rw [readInteger?, parts]
  cases digits : readDigits? signed.2 <;> simp [digits]

theorem readExponent?_eq_some_iff :
    readExponent? cs = some exponent ↔ ExponentText cs exponent := by
  constructor
  · intro read
    unfold readExponent? at read
    split at read
    next =>
      obtain rfl := Option.some.inj read
      exact .none
    next mark rest =>
      obtain ⟨marked, read⟩ := Option.ite_none_right_eq_some.mp read
      obtain ⟨negative, unsigned, parts⟩ :
          ∃ negative unsigned, splitSign rest = (negative, unsigned) := ⟨_, _, rfl⟩
      rw [readInteger?_eq, parts, Option.map_eq_some_iff] at read
      obtain ⟨n, digits, rfl⟩ := read
      obtain ⟨sign, signed, rfl⟩ := exists_sign parts
      obtain ⟨nonempty, isDigits, rfl⟩ := readDigits?_eq_some_iff.mp digits
      exact .marked marked signed isDigits nonempty
  · intro text
    cases text with
    | none => rfl
    | marked marked signed isDigits nonempty =>
      have unsigned := splitSign_append signed fun c first =>
        ⟨isDigits.head_ne rfl c first, isDigits.head_ne rfl c first⟩
      have digits := readDigits?_eq_some_iff.mpr ⟨nonempty, isDigits, rfl⟩
      rw [readExponent?, if_pos marked, readInteger?_eq, unsigned, digits, Option.map_some]

theorem ExponentText.unique {other : Int} (first : ExponentText cs exponent)
    (second : ExponentText cs other) : exponent = other := by
  rw [← readExponent?_eq_some_iff] at first second
  exact Option.some.inj (first.symm.trans second)

theorem ExponentText.head (text : ExponentText cs exponent) :
    ∀ c ∈ cs.head?, c = 'e' ∨ c = 'E' := by
  intro c first
  cases text with
  | none => contradiction
  | marked marked => exact Option.some.inj first ▸ marked

theorem ExponentText.head_not_digit (text : ExponentText cs exponent) :
    ∀ c ∈ cs.head?, c.isDigit = false := by
  intro c first
  rcases text.head c first with rfl | rfl
  · rfl
  · rfl

theorem takeWhile_append_dropWhile_isDigit (cs : List Char) :
    IsDigits (cs.takeWhile Char.isDigit) ∧
      cs = cs.takeWhile Char.isDigit ++ cs.dropWhile Char.isDigit :=
  ⟨fun _ member => List.mem_takeWhile_imp member, (List.takeWhile_append_dropWhile ..).symm⟩

theorem read?_of_numberText (text : NumberText cs whole fraction exponent) :
    read? cs = some (ofParts whole fraction exponent) := by
  obtain ⟨isDigits, point, nonempty, marked⟩ := text
  have reads := readExponent?_eq_some_iff.mpr marked
  have ends := marked.head_not_digit
  cases point with
  | none =>
    rename_i mark
    obtain ⟨taken, dropped⟩ := takeWhile_isDigit_append isDigits mark ends
    rw [List.append_nil] at nonempty
    rw [List.nil_append, read?, taken, dropped]
    cases mark with
    | nil => simp [nonempty, reads]
    | cons c rest =>
      have noPoint : c ≠ '.' := by
        rintro rfl
        rcases marked.head '.' rfl with e | e <;> contradiction
      simp [nonempty, noPoint, reads]
  | point fractionDigits =>
    rename_i mark
    obtain ⟨taken, dropped⟩ := takeWhile_isDigit_append isDigits ('.' :: (fraction ++ mark))
      fun c first => Option.some.inj first ▸ rfl
    obtain ⟨fractionTaken, fractionDropped⟩ := takeWhile_isDigit_append fractionDigits mark ends
    have some : ¬ (whole = [] ∧ fraction = []) := by simpa using nonempty
    rw [List.cons_append, read?, taken, dropped]
    simp [fractionTaken, fractionDropped, some, reads]

theorem numberText_of_parts {point rest : List Char} {d : Decimal} (isDigits : IsDigits whole)
    (pointed : FractionText point fraction)
    (read : (if whole = [] ∧ fraction = [] then none
      else (readExponent? rest).map (ofParts whole fraction)) = some d) :
    ∃ exponent, NumberText (whole ++ (point ++ rest)) whole fraction exponent ∧
      ofParts whole fraction exponent = d := by
  obtain ⟨some, read⟩ := Option.ite_none_left_eq_some.mp read
  obtain ⟨exponent, marked, parts⟩ := Option.map_eq_some_iff.mp read
  refine ⟨exponent, .intro isDigits pointed ?_ (readExponent?_eq_some_iff.mp marked), parts⟩
  rwa [ne_eq, List.append_eq_nil_iff]

theorem read?_eq_some_iff {d : Decimal} :
    read? cs = some d ↔ ∃ whole fraction exponent, NumberText cs whole fraction exponent ∧
      ofParts whole fraction exponent = d := by
  constructor
  · intro read
    obtain ⟨wholeDigits, split⟩ := takeWhile_append_dropWhile_isDigit cs
    unfold read? at read
    generalize cs.takeWhile Char.isDigit = whole at *
    generalize cs.dropWhile Char.isDigit = tail at *
    dsimp only at read
    split at read
    next rest =>
      obtain ⟨fractionDigits, fractionSplit⟩ := takeWhile_append_dropWhile_isDigit rest
      obtain ⟨exponent, text, parts⟩ :=
        numberText_of_parts wholeDigits (.point fractionDigits) read
      rw [List.cons_append, ← fractionSplit, ← split] at text
      exact ⟨whole, _, exponent, text, parts⟩
    next =>
      obtain ⟨exponent, text, parts⟩ := numberText_of_parts wholeDigits .none read
      rw [List.nil_append, ← split] at text
      exact ⟨whole, [], exponent, text, parts⟩
  · rintro ⟨whole, fraction, exponent, text, rfl⟩
    exact read?_of_numberText text

-- A number begins with a digit or a point, a word with a letter.
theorem NumberText.head (text : NumberText cs whole fraction exponent) :
    ∃ c rest, cs = c :: rest ∧ (c.isDigit ∨ c = '.') := by
  obtain ⟨isDigits, pointed, nonempty, -⟩ := text
  cases whole with
  | cons c rest =>
    have digit := isDigits c List.mem_cons_self
    exact ⟨c, _, List.cons_append, .inl digit⟩
  | nil =>
    cases pointed with
    | none => exact absurd rfl nonempty
    | point => exact ⟨'.', _, rfl, .inr rfl⟩

theorem NumberText.map_toLower_ne (text : NumberText cs whole fraction exponent) {c : Char}
    (word : List Char) (letter : c.isDigit = false) (other : c ≠ '.') :
    cs.map Char.toLower ≠ c :: word := by
  obtain ⟨first, rest, rfl, kind⟩ := text.head
  intro same
  have lower : first.toLower = c := (List.cons.inj same).1
  rcases kind with digit | rfl
  · rw [toLower_of_isDigit digit] at lower
    rw [lower, letter] at digit
    contradiction
  · exact other lower.symm

namespace Spelling

variable {spelling : Spelling} {bits : Nat}

theorem exists_denotes (spelling : Spelling) : ∃ bits, spelling.Denotes bits := by
  cases spelling with
  | number whole fraction exponent =>
    have rounds := rounds_round (ofParts whole fraction exponent)
    rw [toRat_ofParts] at rounds
    exact ⟨_, rounds⟩
  | infinity => exact ⟨_, rfl⟩
  | nan => exact ⟨_, rfl⟩

theorem Spells.head_not_sign (spells : spelling.Spells cs) :
    ∀ c ∈ cs.head?, c ≠ '-' ∧ c ≠ '+' := by
  have word {first : Char} {rest : List Char} (same : cs.map Char.toLower = first :: rest)
      (minus : '-'.toLower ≠ first) (plus : '+'.toLower ≠ first) :
      ∀ c ∈ cs.head?, c ≠ '-' ∧ c ≠ '+' := by
    intro c head
    obtain ⟨later, rfl⟩ := List.head?_eq_some_iff.mp head
    have lower : c.toLower = first := (List.cons.inj same).1
    exact ⟨fun sign => minus (sign ▸ lower), fun sign => plus (sign ▸ lower)⟩
  cases spelling with
  | number whole fraction exponent =>
    obtain ⟨first, rest, rfl, kind⟩ := NumberText.head spells
    intro c head
    obtain rfl := Option.some.inj head
    constructor
    · rintro rfl
      exact absurd kind (by decide)
    · rintro rfl
      exact absurd kind (by decide)
  | infinity =>
    rcases spells with short | long
    · exact word short (by decide) (by decide)
    · exact word long (by decide) (by decide)
  | nan => exact word spells (by decide) (by decide)

end Spelling

theorem readMagnitude?_eq_some_iff {bits : Nat} : readMagnitude? binary64 cs = some bits ↔
    ∃ spelling : Spelling, spelling.Spells cs ∧ spelling.Denotes bits := by
  have word (w : String) : String.ofList (cs.map Char.toLower) = w ↔
      cs.map Char.toLower = w.toList := by
    rw [← String.toList_inj, String.toList_ofList]
  simp only [readMagnitude?, word]
  constructor
  · intro read
    split at read
    next infinite => exact ⟨.infinity, infinite, (Option.some.inj read).symm⟩
    next =>
      split at read
      next none => exact ⟨.nan, none, (Option.some.inj read).symm⟩
      next =>
        obtain ⟨d, decimal, rfl⟩ := Option.map_eq_some_iff.mp read
        obtain ⟨whole, fraction, exponent, text, rfl⟩ := read?_eq_some_iff.mp decimal
        have rounds := rounds_round (ofParts whole fraction exponent)
        rw [toRat_ofParts] at rounds
        exact ⟨.number whole fraction exponent, text, rounds⟩
  · rintro ⟨spelling, spells, denotes⟩
    cases spelling with
    | infinity =>
      have same : cs.map Char.toLower = "inf".toList ∨
          cs.map Char.toLower = "infinity".toList := spells
      rw [if_pos same]
      exact congrArg some denotes.symm
    | nan =>
      have same : cs.map Char.toLower = "nan".toList := spells
      rw [same, if_neg (by decide), if_pos rfl]
      exact congrArg some denotes.symm
    | number whole fraction exponent =>
      have text : NumberText cs whole fraction exponent := spells
      have inf : cs.map Char.toLower ≠ "inf".toList :=
        text.map_toLower_ne "nf".toList rfl (by decide)
      have infinity : cs.map Char.toLower ≠ "infinity".toList :=
        text.map_toLower_ne "nfinity".toList rfl (by decide)
      have nan : cs.map Char.toLower ≠ "nan".toList :=
        text.map_toLower_ne "an".toList rfl (by decide)
      have rounds := rounds_round (ofParts whole fraction exponent)
      rw [toRat_ofParts] at rounds
      rw [if_neg (not_or.mpr ⟨inf, infinity⟩), if_neg nan, read?_of_numberText text,
        Option.map_some, Ieee.Rounds.unique rounds denotes]

theorem readFloat?_eq_some_iff {x : Float} : readFloat? (.ofList cs) = some x ↔
    ∃ negative spelling bits, FloatText cs negative spelling ∧ spelling.Denotes bits ∧
      Ieee.toFloat negative bits = x := by
  rw [readFloat?, String.toList_ofList]
  constructor
  · intro read
    obtain ⟨negative, unsigned, parts⟩ :
        ∃ negative unsigned, splitSign cs = (negative, unsigned) := ⟨_, _, rfl⟩
    rw [parts] at read
    obtain ⟨bits, read, value⟩ := Option.map_eq_some_iff.mp read
    obtain ⟨spelling, spells, denotes⟩ := readMagnitude?_eq_some_iff.mp read
    obtain ⟨sign, signed, rfl⟩ := exists_sign parts
    exact ⟨negative, spelling, bits, .intro signed spells, denotes, value⟩
  · rintro ⟨negative, spelling, bits, ⟨signed, spells⟩, denotes, rfl⟩
    have read := readMagnitude?_eq_some_iff.mpr ⟨spelling, spells, denotes⟩
    rw [splitSign_append signed spells.head_not_sign]
    simp [read]

end ExprGraph.Decimal
