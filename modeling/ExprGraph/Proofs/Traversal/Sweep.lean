import ExprGraph.Proofs.Traversal.Progress

set_option autoImplicit false

namespace ExprGraph

variable {σ ε R : Type}

def Context.sweep [ReportsError ε] (context : Context) (visit : Visitor σ ε R) :
    List Node → (Node → Option R) → σ → Except ε (Node → Option R) × σ
  | [], known, s => (.ok known, s)
  | node :: rest, known, s =>
    match context.op? node with
    | none => (.error (ReportsError.report .badNode), s)
    | some op =>
      match op.collect known with
      | none => (.error (ReportsError.report .badNode), s)
      | some results =>
        match visit node op results s with
        | (.ok value, s) => context.sweep visit rest (Function.update known node (some value)) s
        | (.error e, s) => (.error e, s)

namespace Context

variable [ReportsError ε] {context : Context} {root : Node}

theorem sweep_cons {node : Node} {op : Op Node} {results : Op R} {known : Node → Option R}
    (visit : Visitor σ ε R) (rest : List Node) (found : context.op? node = some op)
    (collected : op.collect known = some results) (s : σ) :
    context.sweep visit (node :: rest) known s =
      match visit node op results s with
      | (.ok value, s) => context.sweep visit rest (Function.update known node (some value)) s
      | (.error e, s) => (.error e, s) := by
  simp only [sweep, found, collected]

theorem sweep_append (visit : Visitor σ ε R) (nodes rest : List Node) (known : Node → Option R)
    (s : σ) :
    context.sweep visit (nodes ++ rest) known s =
      match context.sweep visit nodes known s with
      | (.ok known, s) => context.sweep visit rest known s
      | (.error e, s) => (.error e, s) := by
  induction nodes generalizing known s with
  | nil => rfl
  | cons node nodes ih =>
    cases found : context.op? node with
    | none => simp [sweep, found]
    | some op =>
      cases collected : op.collect known with
      | none => simp [sweep, found, collected]
      | some results =>
        rw [List.cons_append, sweep_cons visit _ found collected,
          sweep_cons visit _ found collected]
        rcases visit node op results s with ⟨e | value, s'⟩
        · rfl
        · exact ih _ _

end Context

namespace Traversal

variable [ReportsError ε] {retention : Retention} {context : Context} {root : Node}

theorem Underway.finished {p : Progress R} {t : Traversal R}
    (u : Underway retention context root p t) (done : t.todo = []) :
    p.remaining = [] ∧ t.result? root = p.known root := by
  constructor
  · have order := u.order
    rw [done, Context.orderAll_nil, u.whole] at order
    exact List.append_right_eq_self.mp order.symm
  · rw [u.tables.results, if_pos (kept_root ..)]

theorem Underway.stepsLeft_pos {p : Progress R} {t : Traversal R} {node : Node} {rest : List Node}
    (u : Underway retention context root p t) (top : t.todo = node :: rest) :
    0 < p.stepsLeft context := by
  have length := congrArg List.length (u.todo.symm.trans top)
  simp only [List.length_map, List.length_cons] at length
  simp only [Progress.stepsLeft, Traversal.stepsLeft]
  omega

theorem run_eq_sweep (ordered : context.Ordered) (contained : context.Contains root)
    (visit : Visitor σ ε R) (steps : Nat) {p : Progress R} {t : Traversal R}
    (u : Underway retention context root p t) (enough : p.stepsLeft context ≤ steps) (s : σ) :
    match context.sweep visit p.remaining p.known s with
    | (.ok known, s') => ∃ t', run retention context visit steps t s = (.ok t', s') ∧
        t'.todo = [] ∧ t'.result? root = known root
    | (.error e, s') => run retention context visit steps t s = (.error e, s') := by
  induction steps generalizing p t s with
  | zero =>
    cases top : t.todo with
    | nil =>
      obtain ⟨remaining, result⟩ := u.finished top
      rw [remaining]
      exact ⟨t, rfl, top, result⟩
    | cons node rest =>
      have := u.stepsLeft_pos top
      omega
  | succ steps ih =>
    cases top : t.todo with
    | nil =>
      obtain ⟨remaining, result⟩ := u.finished top
      rw [remaining]
      exact ⟨t, by simp [run, top], top, result⟩
    | cons node rest =>
      rw [run, top]
      cases u.move ordered contained visit top with
      | skip old step_eq next fewer =>
        simp only [step_eq]
        exact ih next (by omega) s
      | visit new op results found collected first step_eq next fewer =>
        rw [first, Context.sweep_cons visit _ found collected]
        simp only [step_eq]
        rcases visit node op results s with ⟨e | value, s'⟩
        · rfl
        · have := fewer value
          exact ih (next value) (by omega) s'
      | wait new pending step_eq next fewer =>
        simp only [step_eq]
        exact ih next (by omega) s

-- The bound on steps is never what ends a traversal.
theorem run_finishes (ordered : context.Ordered) (contained : context.Contains root)
    {visit : Visitor σ ε R} {steps : Nat} (enough : stepBound context ≤ steps) {s s' : σ}
    {t : Traversal R}
    (ran : run retention context visit steps (.start context root) s = (.ok t, s')) :
    t.todo = [] := by
  have start : Underway retention context root (Progress.start context root : Progress R)
      (.start context root) :=
    .start ordered contained
  have left : (Progress.start context root : Progress R).stepsLeft context ≤ steps :=
    Nat.le_trans (Nat.le_of_eq (stepsLeft_start context root)) enough
  have swept := run_eq_sweep ordered contained visit steps start left s
  rw [ran] at swept
  split at swept
  · obtain ⟨t', same, done, _⟩ := swept
    obtain ⟨rfl, rfl⟩ : t = t' ∧ s' = _ := by simpa using same
    exact done
  · simp at swept

end Traversal

namespace Context

variable [ReportsError ε] {context : Context} {root : Node}

theorem isSome_of_sweep {visit : Visitor σ ε R} {nodes : List Node} {known after : Node → Option R}
    {s s' : σ} (h : context.sweep visit nodes known s = (.ok after, s')) (node : Node) :
    (after node).isSome ↔ node ∈ nodes ∨ (known node).isSome := by
  induction nodes generalizing known s with
  | nil =>
    obtain ⟨rfl, rfl⟩ : known = after ∧ s = s' := by simpa [sweep] using h
    simp
  | cons first rest ih =>
    cases found : context.op? first with
    | none => simp [sweep, found] at h
    | some op =>
      cases collected : op.collect known with
      | none => simp [sweep, found, collected] at h
      | some results =>
        rw [sweep_cons visit rest found collected] at h
        rcases outcome : visit first op results s with ⟨e | value, s₁⟩
        · simp [outcome] at h
        · rw [outcome] at h
          rw [ih h]
          by_cases same : node = first
          · simp [same]
          · simp [same]

theorem traverseRetaining_eq (ordered : context.Ordered) (contained : context.Contains root)
    (retention : Retention) (visit : Visitor σ ε R) (s : σ) :
    context.traverseRetaining retention visit root s =
      match context.sweep visit (context.order root) (fun _ => none) s with
      | (.ok known, s) =>
        match known root with
        | some result => (.ok result, s)
        | none => (.error (ReportsError.report .badNode), s)
      | (.error e, s) => (.error e, s) := by
  have start : Traversal.Underway retention context root
      (Traversal.Progress.start context root : Traversal.Progress R) (.start context root) :=
    .start ordered contained
  have enough : (Traversal.Progress.start context root : Traversal.Progress R).stepsLeft context ≤
      Traversal.stepBound context :=
    Nat.le_of_eq (Traversal.stepsLeft_start context root)
  have runs := Traversal.run_eq_sweep ordered contained visit _ start enough s
  simp only [Traversal.Progress.start] at runs
  rw [traverseRetaining, if_pos contained]
  generalize context.sweep visit (context.order root) (fun _ => none) s = swept at runs ⊢
  rcases swept with ⟨e | known, s'⟩
  · simp only at runs
    rw [runs]
  · obtain ⟨t, run_eq, _, result⟩ := runs
    cases found : known root <;> simp only [run_eq, result, found]

theorem traverse_of_not_contains (visit : Visitor σ ε R) (h : ¬ context.Contains root) (s : σ) :
    context.traverse visit root s = (.error (ReportsError.report .badNode), s) := by
  rw [traverse, traverseRetaining, if_neg h]

theorem traverse_eq (ordered : context.Ordered) (contained : context.Contains root)
    (visit : Visitor σ ε R) (s : σ) :
    match context.sweep visit (context.order root) (fun _ => none) s with
    | (.ok known, s') => ∃ result, known root = some result ∧
        context.traverse visit root s = (.ok result, s')
    | (.error e, s') => context.traverse visit root s = (.error e, s') := by
  rw [traverse, traverseRetaining_eq ordered contained]
  rcases swept : context.sweep visit (context.order root) (fun _ => none) s with ⟨e | known, s'⟩
  · rfl
  · have member : root ∈ context.order root :=
      (mem_order_iff ordered contained root).mpr (.refl root)
    obtain ⟨result, found⟩ := Option.isSome_iff_exists.mp
      ((isSome_of_sweep swept root).mpr (Or.inl member))
    exact ⟨result, found, by simp [found]⟩

end Context

end ExprGraph
