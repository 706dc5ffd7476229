import ExprGraph.Context.Render
import ExprGraph.Tree.Basic
import Std.Data.HashMap

set_option autoImplicit false

namespace ExprGraph

namespace Tree

inductive Task where
  | down (t : Tree)
  | up (t : Tree)

def Task.tree : Task → Tree
  | .down t => t
  | .up t => t

def Task.weight : Task → Nat
  | .down t => 2 * t.size
  | .up _ => 1

structure Entry where
  context : Context
  seen : Std.HashMap Nat Node

namespace Entry

def node? (entry : Entry) (t : Tree) : Option Node := entry.seen[t.identity]?

def add (entry : Entry) (t : Tree) : Option Entry :=
  match t.op.collect entry.node? with
  | some op =>
    let (node, context) := entry.context.push op
    some ⟨context, entry.seen.insert t.identity node⟩
  | none => none

end Entry

def descent (t : Tree) : List Task := t.operands.map .down

def work : List Task → Nat
  | [] => 0
  | task :: rest => task.weight + work rest

@[simp] theorem work_append (tasks rest : List Task) :
    work (tasks ++ rest) = work tasks + work rest := by
  induction tasks with
  | nil => simp [work]
  | cons task tasks ih => simp [work, ih]; omega

theorem work_descent (t : Tree) : work t.descent + 1 < 2 * t.size := by
  cases t with
  | number | symbol => simp [descent, operands, op, Op.operands, work, size]
  | binary => simp [descent, operands, op, Op.operands, Task.weight, work, size]; omega

def enter : List Task → Entry → Option Entry
  | [], entry => some entry
  | task :: rest, entry =>
    if entry.seen.contains task.tree.identity then enter rest entry
    else match task with
      | .down t => enter (t.descent ++ .up t :: rest) entry
      | .up t =>
        match entry.add t with
        | some entry => enter rest entry
        | none => none
termination_by tasks => work tasks
decreasing_by
  · have : 0 < task.weight := by cases task <;> simp [Task.weight, size_pos]
    simp [work]; omega
  · have := work_descent t
    simp [work, Task.weight]; omega
  · simp [work, Task.weight]

end Tree

namespace Context

def importTree? (context : Context) (t : Tree) : Option (Node × Context) := do
  let entry ← Tree.enter [.down t] ⟨context, ∅⟩
  return (← entry.node? t, entry.context)

def importTree (context : Context) (t : Tree) : Node × Context :=
  (context.importTree? t).getD (default, context)

def exportTree (context : Context) (root : Node) : ExceptT Error Fresh Tree :=
  fun next => context.traverse (fun _ _ op next => (.ok (.ofOp next op), next + 1)) root next

end Context

namespace Tree

def alone (t : Tree) : Node × Context := Context.empty.importTree t

def render (t : Tree) : Except Error String := t.alone.2.render t.alone.1

def repr (t : Tree) : Except Error String := t.alone.2.repr t.alone.1

def traverse {σ ε R : Type} [ReportsError ε] (t : Tree) (visit : Visitor σ ε R) (s : σ) :
    Except ε R × σ :=
  t.alone.2.traverse visit t.alone.1 s

end Tree

end ExprGraph
