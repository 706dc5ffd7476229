import ExprGraph.Context.Render
import ExprGraph.Proofs.Traversal.Recursion

set_option autoImplicit false

namespace ExprGraph

namespace Expr

variable {ε R : Type}

def tryFold (layer : Op R → Except ε R) : Expr → Except ε R
  | .number v => layer (.number v)
  | .symbol s => layer (.symbol s)
  | .binary code lhs rhs => do
    let left ← lhs.tryFold layer
    let right ← rhs.tryFold layer
    layer (.binary code left right)

theorem tryFold_binary {layer : Op R → Except ε R} {code : Opcode} {lhs rhs : Expr} {a b : R}
    (left : lhs.tryFold layer = .ok a) (right : rhs.tryFold layer = .ok b) :
    (binary code lhs rhs).tryFold layer = layer (.binary code a b) := by
  rw [tryFold, left, right]
  rfl

theorem tryFold_ok (layer : Op R → R) (e : Expr) :
    e.tryFold (fun op => (.ok (layer op) : Except ε R)) = .ok (e.fold layer) := by
  induction e with
  | number v => rfl
  | symbol name => rfl
  | binary code lhs rhs left right => exact tryFold_binary left right

end Expr

namespace Context

variable {ε R : Type} {context : Context}

theorem Ordered.postorder_of_unfolds [ReportsError ε] (ordered : context.Ordered) {node : Node}
    {e : Expr} (unfolds : context.Unfolds node e) (layer : Op R → Except ε R) :
    context.postorder node (fun _ _ results => layer results) = e.tryFold layer := by
  rw [ordered.postorder_eq]
  induction unfolds with
  | number found => exact recursion_number found
  | symbol found => exact recursion_symbol found
  | binary found _ _ left right =>
    rw [ordered.recursion_binary found, left, right]
    rfl

theorem Ordered.fold_eq (ordered : context.Ordered) {node : Node} {e : Expr}
    (unfolds : context.Unfolds node e) (layer : Op R → R) :
    context.fold node layer = .ok (e.fold layer) := by
  rw [fold, ordered.postorder_of_unfolds unfolds fun op => .ok (layer op), Expr.tryFold_ok]

theorem Ordered.render_eq (ordered : context.Ordered) {node : Node} {e : Expr}
    (unfolds : context.Unfolds node e) :
    context.render node = .ok (e.fold Infix.layer).text := by
  rw [render, ordered.fold_eq unfolds]
  rfl

theorem Ordered.repr_eq (ordered : context.Ordered) {node : Node} {e : Expr}
    (unfolds : context.Unfolds node e) : context.repr node = .ok (e.fold reprLayer) :=
  ordered.fold_eq unfolds reprLayer

theorem Ordered.exists_unfolds (ordered : context.Ordered) (node : Node) :
    context.Contains node → ∃ e, context.Unfolds node e := by
  induction node using ordered.induction with
  | step node ih =>
    intro contained
    obtain ⟨op, found⟩ := contains_iff_op?.mp contained
    cases op with
    | number v => exact ⟨_, .number found⟩
    | symbol name => exact ⟨_, .symbol found⟩
    | binary code lhs rhs =>
      have operands : context.operandsOf node = [lhs, rhs] := operandsOf_eq found
      have below (operand : Node) (used : operand ∈ context.operandsOf node) :=
        ih operand used (ordered.contains_operand used)
      obtain ⟨left, leftUnfolds⟩ := below lhs (by simp [operands])
      obtain ⟨right, rightUnfolds⟩ := below rhs (by simp [operands])
      exact ⟨_, .binary found leftUnfolds rightUnfolds⟩

end Context

end ExprGraph
