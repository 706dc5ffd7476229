import ExprGraph.Proofs.Ladder.Building
import ExprGraph.Proofs.Traversal.Meaning
import Mathlib.Algebra.Field.Rat
import Mathlib.Tactic.NormNum

set_option autoImplicit false

namespace ExprGraph

namespace Exact

variable {F : Type} [Field F] [DecidableEq F]

inductive Fault where
  | divisionByZero
  | inexact
  | expression (error : Error)

instance : ReportsError Fault := ⟨.expression⟩

def apply : Opcode → F → F → Except Fault F
  | .add, a, b => .ok (a + b)
  | .sub, a, b => .ok (a - b)
  | .mul, a, b => .ok (a * b)
  | .div, a, b => if b = 0 then .error .divisionByZero else .ok (a / b)
  | .pow, _, _ => .error .inexact

def layer (value : String → F) : Op F → Except Fault F
  | .number (.int i) => .ok i.toInt
  | .number _ => .error .inexact
  | .symbol name => .ok (value name)
  | .binary code a b => apply code a b

end Exact

namespace Ladder

variable {F : Type} [Field F] [DecidableEq F] {value : String → F} {e : Expr} {a : F}

theorem exact_rung (divisor : 1 + value "y" ≠ 0) (below : e.tryFold (Exact.layer value) = .ok a) :
    (rungExpr e).tryFold (Exact.layer value) = .ok a := by
  have one : Exact.layer value (.number (.int 1)) = .ok 1 := congrArg Except.ok Int.cast_one
  rw [tryFold_rung below rfl one rfl rfl rfl]
  calc
    Exact.apply .div (a + a * value "y") (1 + value "y") =
        .ok ((a + a * value "y") / (1 + value "y")) := if_neg divisor
    _ = .ok (a * (1 + value "y") / (1 + value "y")) := by rw [mul_one_add]
    _ = .ok a := by rw [mul_div_cancel_right₀ a divisor]

theorem exact_expr (divisor : 1 + value "y" ≠ 0) (depth : Nat) :
    (expr depth).tryFold (Exact.layer value) = .ok (value "x") := by
  induction depth with
  | zero => rfl
  | succ depth ih =>
    rw [expr_succ]
    exact exact_rung divisor ih

/-- A ladder of any depth has the value of `x`. Division by zero would have ended the traversal. -/
theorem exact_value (depth : Nat) (value : String → F) (divisor : 1 + value "y" ≠ 0) :
    ∃ root context, (build depth).run .empty = (.ok root, context) ∧ context.Reachable ∧
      context.postorder root (fun _ _ results => Exact.layer value results) =
        .ok (value "x") := by
  have reachable := reachable_build depth
  rw [run_build] at reachable
  have unfolds := (standing depth).top
  refine ⟨(ladder depth).1, (ladder depth).2, run_build depth, reachable, ?_⟩
  rw [reachable.ordered.postorder_of_unfolds unfolds]
  exact exact_expr divisor depth

def halves : String → ℚ := fun name => if name = "x" then 1 / 2 else 2

theorem exact_halves : 1 + halves "y" ≠ 0 ∧ ∃ root context,
    (build 3).run .empty = (.ok root, context) ∧
      context.postorder root (fun _ _ results => Exact.layer halves results) = .ok (1 / 2) := by
  have two : halves "y" = 2 := if_neg (by decide)
  have divisor : 1 + halves "y" ≠ 0 := by
    rw [two]
    norm_num
  obtain ⟨root, context, built, _, folded⟩ := exact_value 3 halves divisor
  exact ⟨divisor, root, context, built, folded⟩

end Ladder

end ExprGraph
