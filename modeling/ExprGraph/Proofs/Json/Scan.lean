import ExprGraph.Proofs.Json.Phase

set_option autoImplicit false

namespace ExprGraph.Json.Scan

variable {scan : Scan} {c : Char} {cs rest : List Char} {ts : List Token} {token : Token}

@[simp] theorem tokens_emit (scan : Scan) (token : Token) :
    (scan.emit token).tokens = token :: scan.tokens := rfl

@[simp] theorem tokens_stop (scan : Scan) : scan.stop.tokens = .fault :: scan.tokens := rfl

@[simp] theorem tokens_enter (scan : Scan) (mode : Mode) :
    (scan.enter mode).tokens = scan.tokens := rfl

theorem suffix_endNumber (scan : Scan) (phase : Phase) (read : List Char) :
    scan.tokens <:+ (scan.endNumber phase read).tokens := by
  unfold endNumber
  repeat' split
  all_goals exact List.suffix_cons _ _

theorem suffix_startToken (scan : Scan) (c : Char) :
    scan.tokens <:+ (scan.startToken c).tokens := by
  unfold startToken
  repeat' split
  all_goals simp [List.suffix_cons]

theorem suffix_endUnit (scan : Scan) (read : List Char) (high : Option Nat) (unit : Nat) :
    scan.tokens <:+ (scan.endUnit read high unit).tokens := by
  unfold endUnit
  repeat' split
  all_goals simp [List.suffix_cons]

theorem suffix_step (scan : Scan) (c : Char) : scan.tokens <:+ (scan.step c).tokens := by
  cases mode : scan.mode with
  | between =>
    simp only [step, mode]
    exact scan.suffix_startToken c
  | word rest token =>
    cases rest with
    | nil => simp [step, mode, List.suffix_cons]
    | cons next rest =>
      cases rest with
      | nil =>
        simp only [step, mode]
        split <;> exact List.suffix_cons _ _
      | cons later rest =>
        simp only [step, mode]
        split
        · exact List.suffix_rfl
        · exact List.suffix_cons _ _
  | number phase read =>
    have ended := scan.suffix_endNumber phase read
    simp only [step, mode]
    split
    · exact List.suffix_rfl
    · split
      · exact List.suffix_cons _ _
      · split
        · exact ended.trans (suffix_startToken _ c)
        · exact ended
  | text read =>
    simp only [step, mode]
    repeat' split
    all_goals simp [List.suffix_cons]
  | escape read =>
    simp only [step, mode]
    repeat' split
    all_goals simp [List.suffix_cons]
  | pair read high =>
    simp only [step, mode]
    split
    all_goals simp [List.suffix_cons]
  | pairEscape read high =>
    simp only [step, mode]
    split
    all_goals simp [List.suffix_cons]
  | unit read high digits value =>
    simp only [step, mode]
    repeat' split
    · exact List.suffix_cons _ _
    · exact List.suffix_rfl
    · exact scan.suffix_endUnit _ _ _
  | stopped => simp [step, mode]

def run (scan : Scan) (cs : List Char) : List Token := (cs.foldl step scan).finish

theorem run_cons (scan : Scan) (c : Char) (cs : List Char) :
    scan.run (c :: cs) = (scan.step c).run cs := rfl

theorem prefix_finish (scan : Scan) : scan.tokens.reverse <+: scan.finish := by
  unfold finish
  rw [List.reverse_prefix]
  split
  · exact List.suffix_rfl
  · exact List.suffix_rfl
  · exact scan.suffix_endNumber _ _
  · exact List.suffix_cons _ _

theorem prefix_run (scan : Scan) (cs : List Char) : scan.tokens.reverse <+: scan.run cs := by
  induction cs generalizing scan with
  | nil => exact scan.prefix_finish
  | cons c cs ih =>
    exact (List.reverse_prefix.mpr (scan.suffix_step c)).trans (ih (scan.step c))

theorem fault_mem_run_stop (scan : Scan) (cs : List Char) : .fault ∈ scan.stop.run cs := by
  apply (scan.stop.prefix_run cs).subset
  simp

theorem run_stopped (ts : List Token) (cs : List Char) : run ⟨.stopped, ts⟩ cs = ts.reverse := by
  induction cs with
  | nil => rfl
  | cons c cs ih => rwa [run_cons]

section Words

variable (token : Token) (ts : List Token)

theorem run_word (nonempty : rest ≠ []) :
    run ⟨.word rest token, ts⟩ (rest ++ cs) = run ⟨.between, token :: ts⟩ cs := by
  induction rest with
  | nil => contradiction
  | cons c rest ih =>
    cases rest with
    | nil => simp [run_cons, step, emit]
    | cons d rest =>
      rw [List.cons_append, run_cons, ← ih (List.cons_ne_nil d rest)]
      simp [step, enter]

theorem exists_word (nonempty : rest ≠ []) (fine : .fault ∉ run ⟨.word rest token, ts⟩ cs) :
    ∃ after, cs = rest ++ after := by
  induction rest generalizing cs with
  | nil => contradiction
  | cons c rest ih =>
    cases cs with
    | nil => exact absurd (fault_mem_run_stop _ []) fine
    | cons d cs =>
      have same : d = c := by
        by_contra other
        apply fine
        cases rest with
        | nil => simpa [run_cons, step, other] using fault_mem_run_stop _ cs
        | cons next rest => simpa [run_cons, step, other] using fault_mem_run_stop _ cs
      cases rest with
      | nil => exact ⟨cs, by rw [same]; rfl⟩
      | cons next rest =>
        have entered : run ⟨.word (c :: next :: rest) token, ts⟩ (d :: cs) =
            run ⟨.word (next :: rest) token, ts⟩ cs := by
          simp [run_cons, step, same, enter]
        obtain ⟨after, split⟩ := ih (List.cons_ne_nil next rest) (entered ▸ fine)
        exact ⟨after, by rw [same, split]; rfl⟩

end Words

def Apart (cs : List Char) : Prop :=
  ∀ c ∈ cs.head?, c.isDigit = false ∧ c ≠ '.' ∧ c ≠ 'e' ∧ c ≠ 'E'

section Numbers

variable {phase last : Phase} {read digits : List Char} {content : Content}

theorem run_number (path : digits.foldlM Phase.next? phase = some last) (cs : List Char) :
    run ⟨.number phase read, ts⟩ (digits ++ cs) =
      run ⟨.number last (digits.reverse ++ read), ts⟩ cs := by
  induction digits generalizing phase read with
  | nil =>
    obtain rfl := Option.some.inj path
    rfl
  | cons c digits ih =>
    obtain ⟨next, step, path⟩ := Option.bind_eq_some_iff.mp path
    rw [List.cons_append, run_cons, List.reverse_cons, List.append_assoc]
    simpa [Scan.step, step, enter] using ih path

theorem next?_of_apart (complete : last.isComplete) (apart : Apart (c :: cs)) :
    last.next? c = none ∧ c.isDigit = false := by
  obtain ⟨noDigit, noPoint, noMark⟩ := apart c rfl
  cases last with
  | zero | whole | fraction | exponent => simp [Phase.next?, noDigit, noPoint, noMark]
  | minus | point | mark | sign => contradiction

theorem run_number_value (complete : last.isComplete)
    (value : readNumber? read.reverse = some content) (apart : Apart cs) :
    run ⟨.number last read, ts⟩ cs = run ⟨.between, .scalar content :: ts⟩ cs := by
  have ended (scan : Scan) : scan.endNumber last read = scan.emit (.scalar content) := by
    simp [endNumber, value, complete]
  cases cs with
  | nil => simp [run, finish, ended, emit]
  | cons c cs =>
    obtain ⟨stuck, noDigit⟩ := next?_of_apart complete apart
    simp [run_cons, step, stuck, noDigit, ended, emit]

theorem run_number_fault (complete : last.isComplete) (none : readNumber? read.reverse = none)
    (apart : Apart cs) : run ⟨.number last read, ts⟩ cs = (.fault :: ts).reverse := by
  have ended (scan : Scan) : scan.endNumber last read = scan.stop := by
    simp [endNumber, none]
  cases cs with
  | nil => simp [run, finish, ended, stop]
  | cons c cs =>
    obtain ⟨stuck, noDigit⟩ := next?_of_apart complete apart
    rw [← run_stopped _ cs]
    simp [run_cons, step, stuck, noDigit, ended, stop]

theorem endNumber_cases (scan : Scan) (phase : Phase) (read : List Char) :
    scan.endNumber phase read = scan.stop ∨
      ∃ content, phase.isComplete ∧ readNumber? read.reverse = some content ∧
        scan.endNumber phase read = scan.emit (.scalar content) := by
  unfold endNumber
  split
  next content value =>
    split
    next complete => exact .inr ⟨content, complete, value, rfl⟩
    next => exact .inl rfl
  next => exact .inl rfl

theorem exists_number (fine : .fault ∉ run ⟨.number phase read, ts⟩ cs) :
    ∃ digits last after content, cs = digits ++ after ∧
      digits.foldlM Phase.next? phase = some last ∧ last.isComplete ∧
      readNumber? (read.reverse ++ digits) = some content ∧
      run ⟨.number phase read, ts⟩ cs = run ⟨.between, .scalar content :: ts⟩ after := by
  induction cs generalizing phase read with
  | nil =>
    have ended : run ⟨.number phase read, ts⟩ [] =
        (endNumber ⟨.number phase read, ts⟩ phase read).tokens.reverse := rfl
    rcases endNumber_cases ⟨.number phase read, ts⟩ phase read with stopped | emitted
    · rw [ended, stopped] at fine
      simp at fine
    · obtain ⟨content, complete, value, emitted⟩ := emitted
      refine ⟨[], phase, [], content, rfl, rfl, complete, ?_, ?_⟩
      · rwa [List.append_nil]
      · rw [ended, emitted]
        rfl
  | cons c cs ih =>
    cases moves : phase.next? c with
    | some next =>
      have entered : run ⟨.number phase read, ts⟩ (c :: cs) =
          run ⟨.number next (c :: read), ts⟩ cs := by
        simp [run_cons, step, moves, enter]
      rw [entered] at fine ⊢
      obtain ⟨digits, last, after, content, rfl, path, complete, value, same⟩ := ih fine
      refine ⟨c :: digits, last, after, content, rfl, ?_, complete, ?_, same⟩
      · exact Option.bind_eq_some_iff.mpr ⟨next, moves, path⟩
      · simpa using value
    | none =>
      rcases endNumber_cases ⟨.number phase read, ts⟩ phase read with stopped | emitted
      · have fault : step ⟨.number phase read, ts⟩ c = stop ⟨.number phase read, ts⟩ := by
          simp [step, moves, stopped, stop]
        rw [run_cons, fault] at fine
        exact absurd (fault_mem_run_stop _ cs) fine
      · obtain ⟨content, complete, value, emitted⟩ := emitted
        by_cases leading : phase = .zero ∧ c.isDigit
        · have fault : step ⟨.number phase read, ts⟩ c = stop ⟨.number phase read, ts⟩ := by
            simp only [step, moves, if_pos leading]
          rw [run_cons, fault] at fine
          exact absurd (fault_mem_run_stop _ cs) fine
        · have ended : step ⟨.number phase read, ts⟩ c =
              step ⟨.between, .scalar content :: ts⟩ c := by
            simp only [step, moves, if_neg leading, emitted]
            rfl
          refine ⟨[], phase, c :: cs, content, rfl, rfl, complete, ?_, ?_⟩
          · rwa [List.append_nil]
          · rw [run_cons, ended, run_cons]

end Numbers

end ExprGraph.Json.Scan
