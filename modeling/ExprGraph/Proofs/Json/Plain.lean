import ExprGraph.Json.Reader
import ExprGraph.Proofs.Json.Library
import ExprGraph.Proofs.Json.Tokens

set_option autoImplicit false

namespace ExprGraph.Json

open Scan (run run_space run_of_space run_offers)

variable {T : Type} {accept : Content → Option T} {text : String} {token : List Char}
  {content : Content} {numeral : Numeral} {first : Token} {ts rest : List Token} {v : T}

theorem tokens_eq_run (text : String) : tokens text = run ⟨.between, []⟩ text.toList := rfl

theorem tokens_of_offers (encloses : Encloses text token)
    (offers : Offers readDouble? token content) : tokens text = [.scalar content] := by
  obtain ⟨before, after, split, left, right⟩ := encloses
  rw [tokens_eq_run, split, run_space _ left, run_offers offers (Scan.apart_of_space right),
    run_of_space right]
  rfl

theorem tokens_of_overflow (encloses : Encloses text token) (spells : numeral.Spells token)
    (noWord : numeral.word? = none) (overflows : readDouble? token = none) :
    tokens text = [.fault] := by
  obtain ⟨before, after, split, left, right⟩ := encloses
  obtain ⟨last, complete, reads⟩ := Scan.exists_run_numeral spells
  have nothing : readNumber? token = none := by
    rw [Numeral.readNumber?_eq spells, noWord, overflows]
    rfl
  rw [← List.reverse_reverse token] at nothing
  rw [tokens_eq_run, split, run_space _ left, reads,
    Scan.run_number_fault complete nothing (Scan.apart_of_space right)]
  rfl

theorem eq_of_run {one : Token} {cs : List Char}
    (reads : run ⟨.between, [one]⟩ cs = first :: rest) : one = first := by
  have start := Scan.prefix_run ⟨.between, [one]⟩ cs
  rw [reads] at start
  simpa using start

theorem exists_first (fine : .fault ∉ tokens text) (opened : tokens text = first :: rest) :
    ∃ before token after, text.toList = before ++ (token ++ after) ∧ Space before ∧
      TokenText token first ∧ run ⟨.between, [first]⟩ after = first :: rest := by
  rw [tokens_eq_run] at fine opened
  rcases Scan.exists_token fine with space | ⟨before, token, one, after, split, left, written, same⟩
  · rw [run_of_space space] at opened
    contradiction
  · rw [opened] at same
    obtain rfl := eq_of_run same
    exact ⟨before, token, after, split, left, written, same⟩

theorem encloses_of_tokens (single : tokens text = [.scalar content]) :
    ∃ token, Encloses text token ∧ Offers readDouble? token content := by
  have fine : .fault ∉ tokens text := by simp [single]
  obtain ⟨before, token, after, split, left, written, same⟩ := exists_first fine single
  have right : Space after := by
    have later : .fault ∉ run ⟨.between, [.scalar content]⟩ after := by simp [same]
    rcases Scan.exists_token later with space | ⟨_, _, two, cs, _, _, _, again⟩
    · exact space
    · have longer := (Scan.prefix_run ⟨.between, [two, .scalar content]⟩ cs).length_le
      rw [again, same] at longer
      simp at longer
  cases written with
  | scalar offers => exact ⟨token, ⟨before, after, split, left, right⟩, offers⟩

section Nesting

variable {outer : Nat} {nesting : Nesting}

theorem not_fault_mem_of_skip (skipped : nesting.skip outer ts = some []) : .fault ∉ ts := by
  induction ts generalizing nesting with
  | nil => simp
  | cons token rest ih =>
    obtain ⟨next, step, rest_skipped⟩ := Option.bind_eq_some_iff.mp skipped
    have notFault : .fault ≠ token := by
      rintro rfl
      simp [Nesting.step] at step
    split at rest_skipped
    next =>
      obtain rfl := Option.some.inj rest_skipped
      simpa using notFault
    next => simpa [notFault] using ih rest_skipped

theorem first_of_skip {after : List Token}
    (skipped : Nesting.skip outer ⟨[], .value⟩ (first :: rest) = some after)
    (notScalar : ∀ content, first ≠ .scalar content) :
    first = .openArray ∨ first = .openObject := by
  obtain ⟨next, step, -⟩ := Option.bind_eq_some_iff.mp skipped
  cases first with
  | openArray => exact .inl rfl
  | openObject => exact .inr rfl
  | scalar content => exact absurd rfl (notScalar content)
  | closeArray | closeObject | comma | colon | fault => simp [Nesting.step] at step

end Nesting

theorem readValue_of_value (read : plainReader.value accept text = .ok v) :
    readValue accept 0 (tokens text) = .ok (v, []) := by
  simp only [plainReader] at read
  split at read
  next w ended =>
    obtain rfl := Except.ok.inj read
    exact ended
  next => contradiction
  next => contradiction

theorem value_of_tokens (single : tokens text = [.scalar content]) :
    plainReader.value accept text = (accept content).elim (.error .shape) .ok := by
  simp only [plainReader, single, readValue, take]
  cases accept content <;> rfl

theorem origin_of_value (read : plainReader.value accept text = .ok v) :
    ∃ content, accept content = some v ∧
      ((∃ token, Encloses text token ∧ Offers readDouble? token content) ∨
        (content = .list ∧ Opens text '[') ∨ (content = .map ∧ Opens text '\x7b')) := by
  replace read := readValue_of_value read
  generalize line : tokens text = ts at read
  unfold readValue at read
  split at read
  next content rest =>
    obtain ⟨accepted, rfl⟩ := take_eq_ok read
    exact ⟨content, accepted, .inl (encloses_of_tokens line)⟩
  next first rest notScalar =>
    split at read
    next after skipped =>
      obtain ⟨accepted, rfl⟩ := take_eq_ok read
      have fine : .fault ∉ tokens text := line ▸ not_fault_mem_of_skip skipped
      obtain ⟨before, token, after, split, left, written, -⟩ := exists_first fine line
      rcases first_of_skip skipped notScalar with rfl | rfl
      · cases written with
        | openArray => exact ⟨_, accepted, .inr (.inl ⟨rfl, before, after, split, left⟩)⟩
      · cases written with
        | openObject => exact ⟨_, accepted, .inr (.inr ⟨rfl, before, after, split, left⟩)⟩
    next => contradiction
  next => contradiction

section Lists

def listTokens : List Content → List Token
  | [] => [.closeArray]
  | [content] => [.scalar content, .closeArray]
  | content :: rest => .scalar content :: .comma :: listTokens rest

variable {texts : List (List Char)} {contents : List Content} {vs : List T}

theorem run_close (ts : List Token) : run ⟨.between, ts⟩ [']'] = ts.reverse ++ [.closeArray] := by
  simp [run, Scan.step, Scan.startToken, Scan.emit, Scan.finish]

theorem run_elements (offers : List.Forall₂ (Offers readDouble?) texts contents)
    (ts : List Token) :
    run ⟨.between, ts⟩ ([','].intercalate texts ++ [']']) = ts.reverse ++ listTokens contents := by
  induction offers generalizing ts with
  | nil => exact run_close ts
  | @cons token content texts contents one later ih =>
    cases later with
    | nil =>
      have apart : Scan.Apart [']'] := by simp [Scan.Apart]
      rw [List.intercalate_singleton, run_offers one apart, run_close]
      simp [listTokens]
    | @cons next other texts contents two later =>
      rw [List.intercalate_cons_cons, List.append_assoc, List.append_assoc, List.singleton_append]
      have apart (cs : List Char) : Scan.Apart (',' :: cs) := by simp [Scan.Apart]
      have comma (ts : List Token) (cs : List Char) :
          run ⟨.between, ts⟩ (',' :: cs) = run ⟨.between, .comma :: ts⟩ cs := rfl
      rw [run_offers one (apart _), comma, ih]
      simp [listTokens]

theorem readElements_of_last (last : readValue accept 1 ts = .ok (v, [.closeArray])) :
    readElements accept ts = .ok [v] := by
  rw [readElements]
  split <;> simp_all

theorem readElements_of_comma (more : readValue accept 1 ts = .ok (v, .comma :: rest)) :
    readElements accept ts = (readElements accept rest).map (v :: ·) := by
  rw [readElements]
  split <;> simp_all

theorem readElements_listTokens
    (accepted : List.Forall₂ (fun content v => accept content = some v) contents vs)
    (nonempty : contents ≠ []) : readElements accept (listTokens contents) = .ok vs := by
  induction accepted with
  | nil => contradiction
  | @cons content v contents vs one later ih =>
    have first (rest : List Token) :
        readValue accept 1 (.scalar content :: rest) = .ok (v, rest) := by
      simp only [readValue, take, one]
    cases later with
    | nil => exact readElements_of_last (first _)
    | cons two later =>
      rw [listTokens, readElements_of_comma (first _), ih (List.cons_ne_nil _ _)]
      · rfl
      · simp

theorem exists_contents (offers : List.Forall₂ (fun token v => ∃ content,
      Offers readDouble? token content ∧ accept content = some v) texts vs) :
    ∃ contents, List.Forall₂ (Offers readDouble?) texts contents ∧
      List.Forall₂ (fun content v => accept content = some v) contents vs := by
  induction offers with
  | nil => exact ⟨[], .nil, .nil⟩
  | cons one _ ih =>
    obtain ⟨content, offers, accepted⟩ := one
    obtain ⟨contents, later, rest⟩ := ih
    exact ⟨content :: contents, .cons offers later, .cons accepted rest⟩

theorem list_of_offers (offers : List.Forall₂ (fun token v => ∃ content,
      Offers readDouble? token content ∧ accept content = some v) texts vs) :
    plainReader.list accept (.ofList (listText texts)) = .ok vs := by
  obtain ⟨contents, written, accepted⟩ := exists_contents offers
  have opened : tokens (.ofList (listText texts)) = .openArray :: listTokens contents := by
    rw [tokens_eq_run, String.toList_ofList]
    exact run_elements written [.openArray]
  cases contents with
  | nil =>
    cases accepted
    simp only [plainReader, opened, listTokens]
  | cons content contents =>
    have elements := readElements_listTokens accepted (List.cons_ne_nil _ _)
    simp only [plainReader, opened]
    cases contents with
    | nil => exact elements
    | cons next contents => exact elements

end Lists

theorem plainReader_documented : (plainReader : Reader T).Documented where
  value_of_offers _ _ _ _ encloses offers := value_of_tokens (tokens_of_offers encloses offers)
  value_of_overflow accept text _ _ encloses spells noWord overflows := by
    have faulty := tokens_of_overflow encloses spells noWord overflows
    simp only [plainReader, faulty]
    rfl
  of_value _ _ _ := origin_of_value
  list_of_offers _ _ _ := list_of_offers

theorem plainReader_rounds (spells : numeral.Spells token)
    (few : numeral.whole.length + numeral.fraction.length ≤ digitLimit) :
    (plainReader : Reader T).Rounds token numeral := by
  obtain ⟨signed, leading, trailing⟩ := spells
  rename_i sign whole tail fraction negative exponent
  intro _ bits rounds
  have parts : Decimal.splitSign (sign ++ (whole ++ tail)) = (negative, whole ++ tail) :=
    leading.splitSign_append signed.sign tail
  have read := Decimal.read?_of_numberText (leading.numberText trailing)
  have whole_seen := Decimal.abridge_ofParts leading.digits trailing.digits few exponent
  have nearest := Decimal.rounds_round (Decimal.ofParts whole fraction exponent)
  rw [Decimal.toRat_ofParts] at nearest
  obtain rfl := rounds.unique nearest
  simp only [plainReader, readDouble?, parts, read, Option.bind_some, whole_seen]

end ExprGraph.Json
