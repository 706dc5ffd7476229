import ExprGraph.Context.Traversal
import ExprGraph.Expr

set_option autoImplicit false

namespace ExprGraph.Context

variable {ε R : Type}

inductive Unfolds (context : Context) : Node → Expr → Prop where
  | number {node : Node} {v : Number} (h : context.op? node = some (.number v)) :
      Unfolds context node (.number v)
  | symbol {node : Node} {s : String} (h : context.op? node = some (.symbol s)) :
      Unfolds context node (.symbol s)
  | binary {node lhs rhs : Node} {code : Opcode} {left right : Expr}
      (h : context.op? node = some (.binary code lhs rhs))
      (left_unfolds : Unfolds context lhs left) (right_unfolds : Unfolds context rhs right) :
      Unfolds context node (.binary code left right)

theorem Unfolds.unique {context : Context} {node : Node} {e₁ e₂ : Expr}
    (h₁ : context.Unfolds node e₁) (h₂ : context.Unfolds node e₂) : e₁ = e₂ := by
  induction h₁ generalizing e₂ with
  | number h => cases h₂ <;> simp_all
  | symbol h => cases h₂ <;> simp_all
  | binary h _ _ ihl ihr =>
    cases h₂ with
    | number h' => simp_all
    | symbol h' => simp_all
    | binary h' hl hr =>
      obtain ⟨rfl, rfl, rfl⟩ : _ ∧ _ ∧ _ := by simpa using h.symm.trans h'
      rw [ihl hl, ihr hr]

inductive Reaches (context : Context) : Node → Node → Prop where
  | refl (node : Node) : Reaches context node node
  | step {node operand below : Node} (h : operand ∈ context.operandsOf node)
      (rest : Reaches context operand below) : Reaches context node below

def orderFrom (context : Context) (met : List Node) (node : Node) : List Node :=
  if node ∈ met then met
  else match context.op? node with
    | none => met
    | some (.binary _ lhs rhs) =>
      if lhs.index < node.index ∧ rhs.index < node.index then
        context.orderFrom (context.orderFrom met lhs) rhs ++ [node]
      else met ++ [node]
    | some _ => met ++ [node]
termination_by node.index

def order (context : Context) (root : Node) : List Node := context.orderFrom [] root

def recursion [ReportsError ε] (context : Context)
    (visit : Node → Op Node → Op R → Except ε R) (node : Node) : Except ε R :=
  match context.op? node with
  | none => .error (ReportsError.report .badNode)
  | some (.number v) => visit node (.number v) (.number v)
  | some (.symbol s) => visit node (.symbol s) (.symbol s)
  | some (.binary code lhs rhs) =>
    if lhs.index < node.index ∧ rhs.index < node.index then do
      let left ← context.recursion visit lhs
      let right ← context.recursion visit rhs
      visit node (.binary code lhs rhs) (.binary code left right)
    else .error (ReportsError.report .badNode)
termination_by node.index

end ExprGraph.Context
