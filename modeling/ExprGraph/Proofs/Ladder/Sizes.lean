import ExprGraph.Proofs.Ladder.Building
import ExprGraph.Proofs.Traversal.Invariant
import ExprGraph.Proofs.Traversal.Meaning
import Mathlib.Algebra.GroupWithZero.Nat
import Mathlib.Data.List.Nodup

set_option autoImplicit false

namespace ExprGraph

namespace Context

variable {context later : Context} {root : Node}

theorem Reaches.mono {node below : Node} (reaches : context.Reaches node below)
    (keeps : context.Keeps later) : later.Reaches node below := by
  induction reaches with
  | refl node => exact .refl node
  | step used _ ih =>
    obtain ⟨op, found⟩ := contains_iff_op?.mp (contains_of_mem_operandsOf used)
    rw [operandsOf_eq found, ← operandsOf_eq (keeps _ _ found)] at used
    exact .step used ih

theorem Ordered.length_order (ordered : context.Ordered) (contained : context.Contains root)
    (all : ∀ node, context.Contains node → context.Reaches root node) :
    (context.order root).length = context.size := by
  have distinct : context.nodes.Nodup := by
    apply List.nodup_range.map
    intro i j same
    exact congrArg Node.index same
  have perm : (context.order root).Perm context.nodes := by
    apply (List.perm_ext_iff_of_nodup (ordered.settled_order root).nodup distinct).mpr
    intro node
    rw [mem_order_iff ordered contained, mem_nodes]
    constructor
    · intro reaches
      exact ordered.contains_below reaches contained
    · exact all node
  simpa [nodes] using perm.length_eq

theorem Ordered.exists_length_visits {σ ε R : Type} [ReportsError ε] {visit : Visitor σ ε R}
    (ordered : context.Ordered) (contained : context.Contains root) (total : visit.Total) (s : σ) :
    ∃ value visits s', context.traverse visit.logged root ([], s) = (.ok value, visits, s') ∧
      visits.length = (context.order root).length := by
  obtain ⟨value, visits, s', logged, -, -⟩ := ordered.exists_visits_of_total contained total s
  obtain ⟨_, outcome, _, again, -, inOrder⟩ := ordered.exists_visits contained visit s
  obtain ⟨rfl, rfl, rfl⟩ : Except.ok value = outcome ∧ visits = _ ∧ s' = _ := by
    simpa using logged.symm.trans again
  refine ⟨value, visits, s', logged, ?_⟩
  rw [← inOrder.complete value rfl, List.length_map]

end Context

namespace Expr

-- A node and what lies below it, when the operands have been counted.
def countLayer (op : Op Nat) : Nat := 1 + op.operands.sum

theorem fold_countLayer (e : Expr) : e.fold countLayer = e.size := by
  induction e with
  | number | symbol => rfl
  | binary code lhs rhs left right =>
    simp only [fold, size, countLayer, Op.operands, List.sum_cons, List.sum_nil, left, right]
    omega

end Expr

namespace Ladder

variable {y n : Node} {context : Context} {e : Expr}

theorem size_raise (y n : Node) (context : Context) :
    (raise y (n, context)).2.size = context.size + 5 := by
  simp [raise, rungOps, Context.size]

theorem size_ladder (depth : Nat) : (ladder depth).2.size = 5 * depth + 2 := by
  induction depth with
  | zero => rfl
  | succ depth ih =>
    rw [ladder_succ, size_raise, ih]
    omega

theorem index_ladder (depth : Nat) :
    (ladder depth).1.index = if depth = 0 then 0 else 5 * depth + 1 := by
  cases depth with
  | zero => rfl
  | succ depth =>
    have below := size_ladder depth
    rw [ladder_succ, if_neg depth.succ_ne_zero, raise]
    simp only [below]
    omega

theorem reaches_raise (y n : Node) (context : Context) :
    (∀ i < 5, (raise y (n, context)).2.Reaches (raise y (n, context)).1 ⟨context.size + i⟩) ∧
      (raise y (n, context)).2.Reaches (raise y (n, context)).1 n ∧
      (raise y (n, context)).2.Reaches (raise y (n, context)).1 y := by
  have quotient : (raise y (n, context)).2.operandsOf ⟨context.size + 4⟩ =
      [⟨context.size + 1⟩, ⟨context.size + 3⟩] := Context.operandsOf_eq (op?_raise y n context 4)
  have denominator : (raise y (n, context)).2.operandsOf ⟨context.size + 3⟩ =
      [⟨context.size + 2⟩, y] := Context.operandsOf_eq (op?_raise y n context 3)
  have numerator : (raise y (n, context)).2.operandsOf ⟨context.size + 1⟩ =
      [n, ⟨context.size⟩] := Context.operandsOf_eq (op?_raise y n context 1)
  have top : (raise y (n, context)).2.Reaches (raise y (n, context)).1 ⟨context.size + 4⟩ :=
    .refl _
  have num : (raise y (n, context)).2.Reaches (raise y (n, context)).1 ⟨context.size + 1⟩ :=
    top.operand (by simp [quotient])
  have den : (raise y (n, context)).2.Reaches (raise y (n, context)).1 ⟨context.size + 3⟩ :=
    top.operand (by simp [quotient])
  have scaled : (raise y (n, context)).2.Reaches (raise y (n, context)).1 ⟨context.size⟩ :=
    num.operand (by simp [numerator])
  have one : (raise y (n, context)).2.Reaches (raise y (n, context)).1 ⟨context.size + 2⟩ :=
    den.operand (by simp [denominator])
  refine ⟨?_, num.operand (by simp [numerator]), den.operand (by simp [denominator])⟩
  intro i small
  match i, small with
  | 0, _ => exact scaled
  | 1, _ => exact num
  | 2, _ => exact one
  | 3, _ => exact den
  | 4, _ => exact top

-- Without a rung the symbol `y` stands beside the top.
theorem reaches_ladder (depth : Nat) (node : Node) (contained : (ladder depth).2.Contains node)
    (used : node ≠ ⟨1⟩ ∨ depth ≠ 0) : (ladder depth).2.Reaches (ladder depth).1 node := by
  induction depth with
  | zero =>
    have first : node = ⟨0⟩ := by
      have small : node.index < 2 := contained
      have other : node.index ≠ 1 := by simpa [← Node.index_inj] using used
      apply Node.index_inj.mp
      change node.index = 0
      omega
    rw [first]
    exact .refl _
  | succ depth ih =>
    obtain ⟨new, below, shared⟩ := reaches_raise ⟨1⟩ (ladder depth).1 (ladder depth).2
    rw [ladder_succ] at contained ⊢
    have size : node.index < (ladder depth).2.size + 5 := by
      rw [← size_raise ⟨1⟩ (ladder depth).1]
      exact contained
    by_cases old : (ladder depth).2.Contains node
    next =>
      by_cases isShared : node = ⟨1⟩
      next => rwa [isShared]
      next =>
        have reaches := ih old (.inl isShared)
        exact below.trans (reaches.mono (keeps_raise ⟨1⟩ (ladder depth).1 (ladder depth).2))
    next =>
      have above : (ladder depth).2.size ≤ node.index := Nat.le_of_not_lt old
      have reaches := new (node.index - (ladder depth).2.size) (by omega)
      rwa [Nat.add_sub_cancel' above] at reaches

theorem ordered_ladder (depth : Nat) : (ladder depth).2.Ordered := by
  have reachable := reachable_build depth
  rw [run_build] at reachable
  exact reachable.ordered

theorem length_order_ladder (depth : Nat) :
    ((ladder depth).2.order (ladder depth).1).length = if depth = 0 then 1 else 5 * depth + 2 := by
  cases depth with
  | zero =>
    simp [ladder, Context.order, Context.orderFrom, Context.op?]
  | succ depth =>
    have contained := (standing (depth + 1)).top.contains
    have length := (ordered_ladder (depth + 1)).length_order contained fun node inside =>
      reaches_ladder (depth + 1) node inside (.inr depth.succ_ne_zero)
    rw [length, size_ladder, if_neg depth.succ_ne_zero]

theorem size_rungExpr (e : Expr) : (rungExpr e).size = 2 * e.size + 7 := by
  simp only [rungExpr, Expr.size]
  omega

theorem size_expr_add (depth : Nat) : (expr depth).size + 7 = 8 * 2 ^ depth := by
  induction depth with
  | zero => rfl
  | succ depth ih =>
    rw [expr_succ, size_rungExpr]
    omega

-- The text of the next rung. Its numerator is the only operand that needs parentheses on the left.
def rungText (text : String) : String := "(" ++ text ++ " + " ++ text ++ " * y) / (1 + y)"

def text (depth : Nat) : String := rungText^[depth] "x"

theorem text_succ (depth : Nat) : text (depth + 1) = rungText (text depth) :=
  Function.iterate_succ_apply' rungText depth _

theorem fold_rungExpr {below : Infix} (folded : e.fold Infix.layer = below)
    (tight : Opcode.mul.precedence ≤ below.precedence) :
    (rungExpr e).fold Infix.layer = ⟨rungText below.text, Opcode.div.precedence⟩ := by
  have inProduct : ¬ below.precedence < 2 := Nat.not_lt.mpr tight
  have inSum : ¬ below.precedence < 1 := by omega
  have one : (Number.int 1).render = "1" := by decide
  simp [rungExpr, Expr.fold, folded, Infix.layer, Infix.layerText, Infix.within, Op.precedence,
    Opcode.precedence, terminalPrecedence, Opcode.token, inProduct, inSum, one, rungText,
    String.append_assoc]

theorem fold_expr (depth : Nat) : ∃ precedence, Opcode.mul.precedence ≤ precedence ∧
    (expr depth).fold Infix.layer = ⟨text depth, precedence⟩ := by
  induction depth with
  | zero => exact ⟨terminalPrecedence, by decide, rfl⟩
  | succ depth ih =>
    obtain ⟨precedence, tight, folded⟩ := ih
    have next := fold_rungExpr folded tight
    rw [expr_succ, text_succ]
    exact ⟨Opcode.div.precedence, by decide, next⟩

theorem render_ladder (depth : Nat) :
    (ladder depth).2.render (ladder depth).1 = .ok (text depth) := by
  obtain ⟨precedence, -, folded⟩ := fold_expr depth
  rw [(ordered_ladder depth).render_eq (standing depth).top, folded]

theorem utf8ByteSize_rungText (text : String) :
    (rungText text).utf8ByteSize = 2 * text.utf8ByteSize + 19 := by
  have opening : "(".utf8ByteSize = 1 := rfl
  have plus : " + ".utf8ByteSize = 3 := rfl
  have closing : " * y) / (1 + y)".utf8ByteSize = 15 := rfl
  simp only [rungText, String.utf8ByteSize_append, opening, plus, closing]
  omega

theorem utf8ByteSize_text_add (depth : Nat) :
    (text depth).utf8ByteSize + 19 = 20 * 2 ^ depth := by
  induction depth with
  | zero => rfl
  | succ depth ih =>
    rw [text_succ, utf8ByteSize_rungText]
    omega

/-- Five nodes to the rung, while the expression of the top and its text double. -/
theorem exact_sizes (depth : Nat) :
    ∃ root context e text, (build depth).run .empty = (.ok root, context) ∧
      context.size = 5 * depth + 2 ∧
      root.index = (if depth = 0 then 0 else 5 * depth + 1) ∧
      (∀ (σ ε R : Type) [ReportsError ε] (visit : Visitor σ ε R), visit.Total → ∀ s : σ,
        ∃ value visits s', context.traverse visit.logged root ([], s) = (.ok value, visits, s') ∧
          visits.length = if depth = 0 then 1 else 5 * depth + 2) ∧
      context.Unfolds root e ∧ e.size = 8 * 2 ^ depth - 7 ∧
      context.fold root Expr.countLayer = .ok (8 * 2 ^ depth - 7) ∧
      context.render root = .ok text ∧ text.utf8ByteSize = 20 * 2 ^ depth - 19 := by
  have ordered := ordered_ladder depth
  have unfolds := (standing depth).top
  have size : (expr depth).size = 8 * 2 ^ depth - 7 := by
    have added := size_expr_add depth
    omega
  have bytes : (text depth).utf8ByteSize = 20 * 2 ^ depth - 19 := by
    have added := utf8ByteSize_text_add depth
    omega
  have counted : (ladder depth).2.fold (ladder depth).1 Expr.countLayer =
      .ok (8 * 2 ^ depth - 7) := by
    rw [ordered.fold_eq unfolds, Expr.fold_countLayer, size]
  refine ⟨_, _, _, _, run_build depth, size_ladder depth, index_ladder depth, ?_, unfolds, size,
    counted, render_ladder depth, bytes⟩
  intro σ ε R _ visit total s
  obtain ⟨value, visits, s', traversed, length⟩ :=
    ordered.exists_length_visits unfolds.contains total s
  exact ⟨value, visits, s', traversed, length.trans (length_order_ladder depth)⟩

def tally : Visitor Nat Error Nat := fun _ _ results s => (.ok (Expr.countLayer results), s + 1)

theorem sizes_three : tally.Total ∧ ∃ root context text,
    (build 3).run .empty = (.ok root, context) ∧ context.size = 17 ∧ root = ⟨16⟩ ∧
    (∃ value visits s', context.traverse tally.logged root ([], 0) = (.ok value, visits, s') ∧
      visits.length = 17) ∧
    context.fold root Expr.countLayer = .ok 57 ∧
    context.render root = .ok text ∧ text.utf8ByteSize = 141 := by
  have total : tally.Total := fun _ _ results s => ⟨Expr.countLayer results, s + 1, rfl⟩
  obtain ⟨root, context, _, text, built, size, index, visits, -, -, counted, rendered, bytes⟩ :=
    exact_sizes 3
  exact ⟨total, root, context, text, built, size, Node.index_inj.mp index,
    visits Nat Error Nat tally total 0, counted, rendered, bytes⟩

end Ladder

end ExprGraph
