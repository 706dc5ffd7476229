import ExprGraph.Ladder
import ExprGraph.Proofs.Arena.Growth
import ExprGraph.Proofs.Traversal.Meaning
import Mathlib.Logic.Function.Iterate

set_option autoImplicit false

namespace ExprGraph

namespace Ladder

variable {y n : Node} {context : Context} {e : Expr}

theorem staysReachable_rung (y n : Node) : (rung y n).StaysReachable :=
  .bind (Build.staysReachable_binary _ _ _) fun _ =>
    .bind (Build.staysReachable_binary _ _ _) fun _ =>
      .bind (Build.staysReachable_binary _ _ _) fun _ => Build.staysReachable_binary _ _ _

theorem staysReachable_climb (y : Node) (depth : Nat) (n : Node) :
    (climb y depth n).StaysReachable := by
  induction depth generalizing n with
  | zero => exact Build.staysReachable_pure n
  | succ depth ih => exact .bind (staysReachable_rung y n) ih

theorem reachable_build (depth : Nat) : ((build depth).run .empty).2.Reachable := by
  have stays : (build depth).StaysReachable :=
    .bind (Build.staysReachable_symbol "x") fun x =>
      .bind (Build.staysReachable_symbol "y") fun y => staysReachable_climb y depth x
  exact stays .empty .empty

def rungOps (y n : Node) (start : Nat) : Array (Op Node) :=
  #[.binary .mul n y, .binary .add n ⟨start⟩, .number (.int 1), .binary .add ⟨start + 2⟩ y,
    .binary .div ⟨start + 1⟩ ⟨start + 3⟩]

def raise (y : Node) : Node × Context → Node × Context
  | (n, context) => (⟨context.size + 4⟩, ⟨context.ops ++ rungOps y n context.size⟩)

theorem run_rung (hy : context.Contains y) (hn : context.Contains n) :
    (rung y n).run context = (.ok (raise y (n, context)).1, (raise y (n, context)).2) := by
  rw [rung, Build.run_bind, Build.run_binary_built hn hy]
  dsimp only
  rw [Build.run_bind, Build.run_binary_built (Context.contains_push _ hn)
    (Context.contains_push_self _)]
  dsimp only
  rw [Build.run_bind,
    Build.run_binary_number _ (Context.contains_push _ (Context.contains_push _ hy))]
  dsimp only
  rw [Build.run_binary_built]
  · simp [raise, rungOps, Context.push, Context.size, ← Array.toList_inj]
  · simp [Context.Contains, Context.push, Context.size]
  · simp [Context.Contains, Context.push, Context.size]

theorem op?_raise (y n : Node) (context : Context) (i : Nat) :
    (raise y (n, context)).2.op? ⟨context.size + i⟩ = (rungOps y n context.size)[i]? := by
  simp [raise, Context.op?, Context.size, Array.getElem?_append_right]

theorem keeps_raise (y n : Node) (context : Context) :
    context.Keeps (raise y (n, context)).2 := by
  intro node op found
  have inside : node.index < context.ops.size := Context.contains_iff_op?.mpr ⟨op, found⟩
  rw [← found]
  exact Array.getElem?_append_left inside

def rungExpr (e : Expr) : Expr :=
  .binary .div (.binary .add e (.binary .mul e (.symbol "y")))
    (.binary .add (.number (.int 1)) (.symbol "y"))

def expr (depth : Nat) : Expr := rungExpr^[depth] (.symbol "x")

theorem expr_succ (depth : Nat) : expr (depth + 1) = rungExpr (expr depth) :=
  Function.iterate_succ_apply' rungExpr depth _

theorem tryFold_rung {ε R : Type} {layer : Op R → Except ε R} {v y one scaled num den : R}
    (below : e.tryFold layer = .ok v) (shared : layer (.symbol "y") = .ok y)
    (unit : layer (.number (.int 1)) = .ok one) (times : layer (.binary .mul v y) = .ok scaled)
    (above : layer (.binary .add v scaled) = .ok num)
    (under : layer (.binary .add one y) = .ok den) :
    (rungExpr e).tryFold layer = layer (.binary .div num den) := by
  apply Expr.tryFold_binary
  · rw [← above]
    apply Expr.tryFold_binary below
    rw [← times]
    exact Expr.tryFold_binary below shared
  · rw [← under]
    exact Expr.tryFold_binary unit shared

theorem unfolds_raise (hy : context.Unfolds y (.symbol "y")) (hn : context.Unfolds n e) :
    (raise y (n, context)).2.Unfolds (raise y (n, context)).1 (rungExpr e) := by
  have keeps := keeps_raise y n context
  have below := hn.mono keeps
  have shared := hy.mono keeps
  have scaled := Context.Unfolds.binary (op?_raise y n context 0) below shared
  have num := Context.Unfolds.binary (op?_raise y n context 1) below scaled
  have one := Context.Unfolds.number (op?_raise y n context 2)
  have den := Context.Unfolds.binary (op?_raise y n context 3) one shared
  exact .binary (op?_raise y n context 4) num den

def ladder (depth : Nat) : Node × Context :=
  (raise ⟨1⟩)^[depth] (⟨0⟩, ⟨#[.symbol "x", .symbol "y"]⟩)

theorem ladder_succ (depth : Nat) : ladder (depth + 1) = raise ⟨1⟩ (ladder depth) :=
  Function.iterate_succ_apply' (raise ⟨1⟩) depth _

structure Standing (depth : Nat) : Prop where
  shared : (ladder depth).2.Unfolds ⟨1⟩ (.symbol "y")
  top : (ladder depth).2.Unfolds (ladder depth).1 (expr depth)

theorem standing (depth : Nat) : Standing depth := by
  induction depth with
  | zero => exact ⟨.symbol rfl, .symbol rfl⟩
  | succ depth ih =>
    have shared := ih.shared.mono (keeps_raise ⟨1⟩ (ladder depth).1 (ladder depth).2)
    have top := unfolds_raise ih.shared ih.top
    constructor
    · rw [ladder_succ]
      exact shared
    · rw [ladder_succ, expr_succ]
      exact top

-- The rungs that are left are built on those that stand.
theorem run_climb (depth done : Nat) :
    (climb ⟨1⟩ depth (ladder done).1).run (ladder done).2 =
      (.ok (ladder (done + depth)).1, (ladder (done + depth)).2) := by
  induction depth generalizing done with
  | zero => rfl
  | succ depth ih =>
    have stands := standing done
    have next := run_rung stands.shared.contains stands.top.contains
    rw [climb, Build.run_bind, next, ← ladder_succ]
    dsimp only
    rw [ih (done + 1), Nat.succ_add_eq_add_succ]

theorem run_build (depth : Nat) :
    (build depth).run .empty = (.ok (ladder depth).1, (ladder depth).2) := by
  have climbed := run_climb depth 0
  rw [Nat.zero_add] at climbed
  exact climbed

end Ladder

end ExprGraph
