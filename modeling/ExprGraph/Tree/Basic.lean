import ExprGraph.Context.Basic
import ExprGraph.Expr

set_option autoImplicit false

namespace ExprGraph

inductive Tree where
  | number (identity : Nat) (value : Number)
  | symbol (identity : Nat) (name : String)
  | binary (identity : Nat) (code : Opcode) (lhs rhs : Tree)
deriving Inhabited

namespace Tree

def identity : Tree → Nat
  | .number id _ => id
  | .symbol id _ => id
  | .binary id _ _ _ => id

def op : Tree → Op Tree
  | .number _ v => .number v
  | .symbol _ s => .symbol s
  | .binary _ code lhs rhs => .binary code lhs rhs

def ofOp (id : Nat) : Op Tree → Tree
  | .number v => .number id v
  | .symbol s => .symbol id s
  | .binary code lhs rhs => .binary id code lhs rhs

@[simp] theorem identity_ofOp (id : Nat) (op : Op Tree) : (ofOp id op).identity = id := by
  cases op <;> rfl

@[simp] theorem op_ofOp (id : Nat) (op : Op Tree) : (ofOp id op).op = op := by
  cases op <;> rfl

@[simp] theorem ofOp_op (t : Tree) : ofOp t.identity t.op = t := by
  cases t <;> rfl

def operands (t : Tree) : List Tree := t.op.operands

def isTerminal (t : Tree) : Bool := t.op.isTerminal

def same (t u : Tree) : Bool := t.identity == u.identity

def size : Tree → Nat
  | .number .. => 1
  | .symbol .. => 1
  | .binary _ _ lhs rhs => lhs.size + rhs.size + 1

theorem size_pos (t : Tree) : 0 < t.size := by
  cases t <;> simp [size]

def expr : Tree → Expr
  | .number _ v => .number v
  | .symbol _ s => .symbol s
  | .binary _ code lhs rhs => .binary code lhs.expr rhs.expr

def relabel (f : Nat → Nat) : Tree → Tree
  | .number id v => .number (f id) v
  | .symbol id s => .symbol (f id) s
  | .binary id code lhs rhs => .binary (f id) code (lhs.relabel f) (rhs.relabel f)

def subtrees : Tree → List Tree
  | .number id v => [.number id v]
  | .symbol id s => [.symbol id s]
  | .binary id code lhs rhs => lhs.subtrees ++ rhs.subtrees ++ [.binary id code lhs rhs]

-- The nodes of a tree, each where it occurs first.
def nodes (t : Tree) : List Tree :=
  t.subtrees.foldl (fun met u => if met.any u.same then met else met ++ [u]) []

def Coherent (t : Tree) : Prop :=
  ∀ u ∈ t.subtrees, ∀ v ∈ t.subtrees, u.identity = v.identity → u = v

end Tree

abbrev Fresh := StateM Nat

namespace Fresh

def node (op : Op Tree) : Fresh Tree := modifyGet fun next => (.ofOp next op, next + 1)

def number (value : Number) : Fresh Tree := node (.number value)

def symbol (name : String) : Fresh Tree := node (.symbol name)

def operand : Operand Tree → Fresh Tree
  | .built t => pure t
  | .number value => number value

def binary (code : Opcode) (lhs rhs : Operand Tree) : Fresh Tree := do
  let lhs ← operand lhs
  let rhs ← operand rhs
  node (.binary code lhs rhs)

def tryNumber (value : Literal) : ExceptT Error Fresh Tree := do number (← value.asNumber)

def trySymbol (value : Literal) : ExceptT Error Fresh Tree := do symbol (← value.asSymbol)

def copy (t : Tree) : Fresh Tree := node t.op

end Fresh

end ExprGraph
