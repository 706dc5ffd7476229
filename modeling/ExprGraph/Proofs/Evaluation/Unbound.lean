import ExprGraph.Evaluation
import ExprGraph.Proofs.Traversal.Meaning

set_option autoImplicit false

namespace ExprGraph

namespace Bindings

variable {bindings others : Bindings} {e : Expr} {name : String}

def Binds (bindings : Bindings) (name : String) : Prop := (bindings.lookup? name).isSome

instance : Decidable (bindings.Binds name) := inferInstanceAs (Decidable (_ = true))

def Blames (bindings : Bindings) (e : Expr) (name : String) : Prop :=
  ∃ before after, e.symbols = before ++ name :: after ∧ ¬ bindings.Binds name ∧
    ∀ earlier ∈ before, bindings.Binds earlier

def unbound? (bindings : Bindings) (e : Expr) : Option String :=
  e.symbols.find? fun name => (bindings.lookup? name).isNone

theorem unbound?_binary (code : Opcode) (lhs rhs : Expr) :
    bindings.unbound? (.binary code lhs rhs) =
      (bindings.unbound? lhs).or (bindings.unbound? rhs) :=
  List.find?_append

theorem unbound?_eq_some_iff : bindings.unbound? e = some name ↔ bindings.Blames e name := by
  rw [unbound?, List.find?_eq_some_iff_append]
  constructor
  · rintro ⟨unbound, before, after, split, bound⟩
    exact ⟨before, after, split, by simpa [Binds] using unbound, by simpa [Binds] using bound⟩
  · rintro ⟨before, after, split, unbound, bound⟩
    exact ⟨by simpa [Binds] using unbound, before, after, split, by simpa [Binds] using bound⟩

theorem unbound?_eq_none_iff :
    bindings.unbound? e = none ↔ ∀ name ∈ e.symbols, bindings.Binds name := by
  simp [unbound?, Binds, Option.isSome_iff_ne_none]

-- The operands of an operator have been evaluated, the left one first, before it is.
theorem tryFold_evaluateLayer (bindings : Bindings) (e : Expr) :
    match bindings.unbound? e with
    | none => ∃ value, e.tryFold bindings.evaluateLayer = .ok value
    | some name => e.tryFold bindings.evaluateLayer = .error (.unbound name) := by
  induction e with
  | number v => exact ⟨v.toFloat, rfl⟩
  | symbol name =>
    cases found : bindings.lookup? name with
    | none => simp [unbound?, Expr.symbols, Expr.tryFold, evaluateLayer, found]
    | some value => simp [unbound?, Expr.symbols, Expr.tryFold, evaluateLayer, found]
  | binary code lhs rhs left right =>
    rw [unbound?_binary, Expr.tryFold]
    cases inLeft : bindings.unbound? lhs with
    | some name =>
      simp only [inLeft] at left
      simp only [left, Option.some_or]
      rfl
    | none =>
      simp only [inLeft] at left
      obtain ⟨l, leftOk⟩ := left
      rw [leftOk, Option.none_or]
      cases inRight : bindings.unbound? rhs with
      | some name =>
        simp only [inRight] at right
        rw [right]
        rfl
      | none =>
        simp only [inRight] at right
        obtain ⟨r, rightOk⟩ := right
        rw [rightOk]
        exact ⟨code.apply l r, rfl⟩

theorem tryFold_error_iff {error : EvaluationError} :
    e.tryFold bindings.evaluateLayer = .error error ↔
      ∃ name, bindings.Blames e name ∧ error = .unbound name := by
  have spec := bindings.tryFold_evaluateLayer e
  simp only [← unbound?_eq_some_iff]
  cases first : bindings.unbound? e with
  | none =>
    simp only [first] at spec
    obtain ⟨value, ok⟩ := spec
    simp [ok]
  | some name =>
    simp only [first] at spec
    simp [spec, eq_comm]

theorem tryFold_ok_iff : (∃ value, e.tryFold bindings.evaluateLayer = .ok value) ↔
    ∀ name ∈ e.symbols, bindings.Binds name := by
  have spec := bindings.tryFold_evaluateLayer e
  rw [← unbound?_eq_none_iff]
  cases first : bindings.unbound? e with
  | none =>
    simp only [first] at spec
    simp [spec]
  | some name =>
    simp only [first] at spec
    simp [spec]

theorem tryFold_congr (same : ∀ name ∈ e.symbols, others.lookup? name = bindings.lookup? name) :
    e.tryFold others.evaluateLayer = e.tryFold bindings.evaluateLayer := by
  induction e with
  | number v => rfl
  | symbol name =>
    have value := same name (by simp [Expr.symbols])
    simp only [Expr.tryFold, evaluateLayer, value]
  | binary code lhs rhs left right =>
    simp only [Expr.symbols, List.mem_append] at same
    rw [Expr.tryFold, Expr.tryFold, left fun name member => same name (.inl member),
      right fun name member => same name (.inr member)]
    rfl

end Bindings

namespace Context

variable {context : Context} {root : Node} {e : Expr}

def Mentions (context : Context) (root : Node) (name : String) : Prop :=
  ∃ below, context.Reaches root below ∧ context.op? below = some (.symbol name)

theorem mentions_iff {op : Op Node} (found : context.op? root = some op) (name : String) :
    context.Mentions root name ↔
      op = .symbol name ∨ ∃ operand ∈ op.operands, context.Mentions operand name := by
  constructor
  · rintro ⟨below, reaches, symbol⟩
    cases reaches with
    | refl => exact .inl (Option.some.inj (found.symm.trans symbol))
    | step used rest => exact .inr ⟨_, operandsOf_eq found ▸ used, below, rest, symbol⟩
  · rintro (rfl | ⟨operand, used, below, rest, symbol⟩)
    · exact ⟨root, .refl root, found⟩
    · rw [← operandsOf_eq found] at used
      exact ⟨below, .step used rest, symbol⟩

theorem Unfolds.mem_symbols_iff (unfolds : context.Unfolds root e) (name : String) :
    name ∈ e.symbols ↔ context.Mentions root name := by
  induction unfolds with
  | number found => simp [mentions_iff found, Expr.symbols, Op.operands]
  | symbol found => simp [mentions_iff found, Expr.symbols, Op.operands, eq_comm]
  | binary found _ _ left right =>
    simp [mentions_iff found, Expr.symbols, Op.operands, left, right]

theorem Ordered.evaluate_eq (ordered : context.Ordered) (unfolds : context.Unfolds root e)
    (bindings : Bindings) :
    context.evaluate root bindings = e.tryFold bindings.evaluateLayer :=
  ordered.postorder_of_unfolds unfolds bindings.evaluateLayer

theorem evaluate_of_not_contains (missing : ¬ context.Contains root) (bindings : Bindings) :
    context.evaluate root bindings = .error (.expression .badNode) :=
  postorder_of_not_contains missing _

/-- A node has a value exactly if all symbols at and below it are bound. Otherwise the leftmost leaf
without a value is to blame. -/
theorem evaluate_blames_leftmost (reachable : context.Reachable) (root : Node)
    (bindings : Bindings) :
    (context.Contains root → ∃ e, context.Unfolds root e ∧
      ((∃ value, context.evaluate root bindings = .ok value) ↔
        ∀ name, context.Mentions root name → bindings.Binds name) ∧
      (∀ error, context.evaluate root bindings = .error error ↔
        ∃ name, bindings.Blames e name ∧ error = .unbound name ∧
          error.message = "symbol `" ++ name ++ "` is not bound") ∧
      ∀ others : Bindings,
        (∀ name, context.Mentions root name → others.lookup? name = bindings.lookup? name) →
        context.evaluate root others = context.evaluate root bindings) ∧
    (¬ context.Contains root → ∃ error, context.evaluate root bindings = .error error ∧
      error = .expression .badNode ∧ error.message = "node is not present in this `Context`") := by
  have ordered := reachable.ordered
  constructor
  · intro contained
    obtain ⟨e, unfolds⟩ := ordered.exists_unfolds root contained
    have mentioned := unfolds.mem_symbols_iff
    refine ⟨e, unfolds, ?_, ?_, ?_⟩
    · simp only [ordered.evaluate_eq unfolds, Bindings.tryFold_ok_iff, mentioned]
    · intro error
      rw [ordered.evaluate_eq unfolds, Bindings.tryFold_error_iff]
      constructor
      · rintro ⟨name, blames, rfl⟩
        exact ⟨name, blames, rfl, rfl⟩
      · rintro ⟨name, blames, unbound, _⟩
        exact ⟨name, blames, unbound⟩
    · intro others same
      rw [ordered.evaluate_eq unfolds, ordered.evaluate_eq unfolds]
      exact Bindings.tryFold_congr fun name member => same name ((mentioned name).mp member)
  · intro missing
    exact ⟨_, evaluate_of_not_contains missing bindings, rfl, rfl⟩

def crossed : Context := ⟨#[.symbol "b", .symbol "a", .binary .sub ⟨1⟩ ⟨0⟩]⟩

theorem evaluate_crossed : crossed.Reachable ∧ crossed.Contains ⟨2⟩ ∧
    crossed.evaluate ⟨2⟩ [⟨"c", 2⟩] = .error (.unbound "a") ∧
    ¬ crossed.Contains ⟨3⟩ ∧ crossed.evaluate ⟨3⟩ [] = .error (.expression .badNode) := by
  have symbols : Reachable _ := .after (.symbol "a") (.after (.symbol "b") .empty)
  have reachable : crossed.Reachable := .after (.binary .sub (.built ⟨1⟩) (.built ⟨0⟩)) symbols
  have contained : crossed.Contains ⟨2⟩ := by decide
  have missing : ¬ crossed.Contains ⟨3⟩ := by decide
  have difference : crossed.Unfolds ⟨2⟩ (.binary .sub (.symbol "a") (.symbol "b")) :=
    .binary rfl (.symbol rfl) (.symbol rfl)
  obtain ⟨e, unfolds, _, fails, _⟩ :=
    (evaluate_blames_leftmost reachable ⟨2⟩ [⟨"c", 2⟩]).1 contained
  obtain rfl := unfolds.unique difference
  obtain ⟨_, failed, rfl, _⟩ := (evaluate_blames_leftmost reachable ⟨3⟩ []).2 missing
  have blames : Bindings.Blames [⟨"c", 2⟩] (.binary .sub (.symbol "a") (.symbol "b")) "a" :=
    ⟨[], ["b"], rfl, by decide, nofun⟩
  exact ⟨reachable, contained, (fails _).mpr ⟨"a", blames, rfl, rfl⟩, missing, failed⟩

end Context

end ExprGraph
