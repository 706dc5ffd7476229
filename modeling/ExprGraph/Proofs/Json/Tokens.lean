import ExprGraph.Proofs.Json.Text

set_option autoImplicit false

namespace ExprGraph.Json

inductive TokenText : List Char → Token → Prop where
  | openArray : TokenText ['['] .openArray
  | closeArray : TokenText [']'] .closeArray
  | openObject : TokenText ['\x7b'] .openObject
  | closeObject : TokenText ['\x7d'] .closeObject
  | comma : TokenText [','] .comma
  | colon : TokenText [':'] .colon
  | scalar {text : List Char} {content : Content} : Offers readDouble? text content →
      TokenText text (.scalar content)

namespace Scan

variable {before after cs text : List Char} {ts : List Token} {token : Token} {c : Char}
  {phase : Phase} {numeral : Numeral} {content : Content}

theorem run_space (ts : List Token) (space : Space before) (cs : List Char) :
    run ⟨.between, ts⟩ (before ++ cs) = run ⟨.between, ts⟩ cs := by
  induction before with
  | nil => rfl
  | cons c before ih =>
    obtain ⟨first, rest⟩ := List.forall_mem_cons.mp space
    have skipped : step ⟨.between, ts⟩ c = ⟨.between, ts⟩ := by
      rcases first with rfl | rfl | rfl | rfl <;> rfl
    rw [List.cons_append, run_cons, skipped, ih rest]

theorem run_of_space (space : Space cs) : run ⟨.between, ts⟩ cs = ts.reverse := by
  have skipped := run_space ts space []
  rw [List.append_nil] at skipped
  rw [skipped]
  rfl

theorem apart_of_space (space : Space cs) : Apart cs := by
  intro c first
  rcases space c (List.mem_of_mem_head? first) with rfl | rfl | rfl | rfl <;> decide

theorem step_first (start : Phase.ofFirst? c = some phase) :
    step ⟨.between, ts⟩ c = ⟨.number phase [c], ts⟩ := by
  simp only [step, startToken]
  split
  all_goals first
    | simp [start, enter]; done
    | simp [Phase.ofFirst?] at start

theorem exists_run_numeral (spells : numeral.Spells text) : ∃ last : Phase, last.isComplete ∧
    ∀ ts cs, run ⟨.between, ts⟩ (text ++ cs) = run ⟨.number last text.reverse, ts⟩ cs := by
  obtain ⟨c, rest, rfl⟩ := List.exists_cons_of_ne_nil spells.ne_nil
  obtain ⟨first, start, last, path, complete⟩ := Numeral.exists_spells_iff.mp ⟨numeral, spells⟩
  refine ⟨last, complete, fun ts cs => ?_⟩
  rw [List.cons_append, run_cons, step_first start, run_number path, List.reverse_cons]

theorem run_numeral (spells : numeral.Spells text) (value : readNumber? text = some content)
    (apart : Apart cs) :
    run ⟨.between, ts⟩ (text ++ cs) = run ⟨.between, .scalar content :: ts⟩ cs := by
  obtain ⟨last, complete, reads⟩ := exists_run_numeral spells
  rw [← List.reverse_reverse text] at value
  rw [reads, run_number_value complete value apart]

theorem run_offers (offers : Offers readDouble? text content) (apart : Apart cs) :
    run ⟨.between, ts⟩ (text ++ cs) = run ⟨.between, .scalar content :: ts⟩ cs := by
  cases offers with
  | null => exact run_word (.scalar .unit) ts (List.cons_ne_nil _ _)
  | true => exact run_word (.scalar (.bool true)) ts (List.cons_ne_nil _ _)
  | false => exact run_word (.scalar (.bool false)) ts (List.cons_ne_nil _ _)
  | word spells word =>
    apply run_numeral spells _ apart
    rw [Numeral.readNumber?_eq spells, word, Option.some_or]
  | double spells word made =>
    apply run_numeral spells _ apart
    rw [Numeral.readNumber?_eq spells, word, Option.none_or, made, Option.map_some]
  | text string =>
    rw [List.cons_append, List.append_assoc]
    exact run_string string cs

theorem startToken_cases (scan : Scan) (c : Char) :
    (IsSpace c ∧ scan.startToken c = scan) ∨
    (∃ token, TokenText [c] token ∧ scan.startToken c = scan.emit token) ∨
    (∃ rest token, rest ≠ [] ∧ TokenText (c :: rest) token ∧
      scan.startToken c = scan.enter (.word rest token)) ∨
    (∃ phase, Phase.ofFirst? c = some phase ∧
      scan.startToken c = scan.enter (.number phase [c])) ∨
    (c = '"' ∧ scan.startToken c = scan.enter (.text [])) ∨
    scan.startToken c = scan.stop := by
  unfold startToken
  split
  · exact .inl ⟨by decide, rfl⟩
  · exact .inl ⟨by decide, rfl⟩
  · exact .inl ⟨by decide, rfl⟩
  · exact .inl ⟨by decide, rfl⟩
  · exact .inr (.inl ⟨_, .openArray, rfl⟩)
  · exact .inr (.inl ⟨_, .closeArray, rfl⟩)
  · exact .inr (.inl ⟨_, .openObject, rfl⟩)
  · exact .inr (.inl ⟨_, .closeObject, rfl⟩)
  · exact .inr (.inl ⟨_, .comma, rfl⟩)
  · exact .inr (.inl ⟨_, .colon, rfl⟩)
  · simp
  · exact .inr (.inr (.inl ⟨_, _, by simp, .scalar .null, rfl⟩))
  · exact .inr (.inr (.inl ⟨_, _, by simp, .scalar .true, rfl⟩))
  · exact .inr (.inr (.inl ⟨_, _, by simp, .scalar .false, rfl⟩))
  · split
    next phase start => exact .inr (.inr (.inr (.inl ⟨phase, start, rfl⟩)))
    next => simp

theorem exists_token (fine : .fault ∉ run ⟨.between, ts⟩ cs) : Space cs ∨
    ∃ before text token after, cs = before ++ (text ++ after) ∧ Space before ∧
      TokenText text token ∧ run ⟨.between, token :: ts⟩ after = run ⟨.between, ts⟩ cs := by
  have nothing : Space [] := by simp [Space]
  induction cs with
  | nil => exact .inl nothing
  | cons c cs ih =>
    have start : run ⟨.between, ts⟩ (c :: cs) = run (startToken ⟨.between, ts⟩ c) cs := rfl
    rw [start] at fine ⊢
    rcases startToken_cases ⟨.between, ts⟩ c with ⟨space, same⟩ | ⟨token, text, same⟩ |
      ⟨rest, token, nonempty, text, same⟩ | ⟨phase, first, same⟩ | ⟨rfl, same⟩ | same
    · rw [same] at fine ⊢
      rcases ih fine with spaces | ⟨before, text, token, after, rfl, spaces, written, same⟩
      · exact .inl (List.forall_mem_cons.mpr ⟨space, spaces⟩)
      · exact .inr ⟨c :: before, text, token, after, rfl,
          List.forall_mem_cons.mpr ⟨space, spaces⟩, written, same⟩
    · rw [same]
      exact .inr ⟨[], [c], token, cs, rfl, nothing, text, rfl⟩
    · rw [same] at fine ⊢
      obtain ⟨after, rfl⟩ := exists_word token ts nonempty fine
      exact .inr
        ⟨[], c :: rest, token, after, rfl, nothing, text, (run_word token ts nonempty).symm⟩
    · rw [same] at fine ⊢
      obtain ⟨digits, last, after, content, rfl, path, complete, value, same⟩ := exists_number fine
      obtain ⟨numeral, spells⟩ :=
        Numeral.exists_spells_iff.mpr ⟨phase, first, last, path, complete⟩
      have offers := Numeral.offers_of_readNumber? spells value
      exact .inr ⟨[], c :: digits, _, after, rfl, nothing, .scalar offers, same.symm⟩
    · rw [same] at fine ⊢
      obtain ⟨text, content, after, rfl, string⟩ := exists_string fine
      have reads : run ⟨.text [], ts⟩ (text ++ '"' :: after) =
          run ⟨.between, .scalar (.text (.ofList content)) :: ts⟩ after := run_string string after
      exact .inr ⟨[], '"' :: (text ++ ['"']), _, after, by simp, nothing,
        .scalar (.text string), reads.symm⟩
    · rw [same] at fine
      exact absurd (fault_mem_run_stop _ cs) fine

end Scan

end ExprGraph.Json
