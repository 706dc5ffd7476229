import ExprGraph.Context.Uses

set_option autoImplicit false

namespace ExprGraph

abbrev Visitor (σ ε R : Type) := Node → Op Node → Op R → σ → Except ε R × σ

-- Which results are kept: all of them, or those that a later visit needs.
inductive Retention where
  | all
  | needed
deriving DecidableEq

structure Traversal (R : Type) where
  todo : List Node
  results : Array (Option R)
  uses : Array Nat

namespace Traversal

variable {σ ε R : Type}

def start (context : Context) (root : Node) : Traversal R where
  todo := [root]
  results := Array.replicate context.size none
  uses := context.countUses root

def result? (t : Traversal R) (node : Node) : Option R := t.results[node.index]?.join

def release (t : Traversal R) (operand : Node) : Traversal R :=
  let left := t.uses[operand.index]?.getD 0 - 1
  { t with
    uses := t.uses.setIfInBounds operand.index left
    results := if left = 0 then t.results.setIfInBounds operand.index none else t.results }

def store (retention : Retention) (t : Traversal R) (node : Node) (op : Op Node) (result : R) :
    Traversal R :=
  let t := { t with results := t.results.setIfInBounds node.index (some result) }
  match retention with
  | .all => t
  | .needed => op.operands.foldl release t

def step [ReportsError ε] (retention : Retention) (context : Context) (visit : Visitor σ ε R)
    (node : Node) (t : Traversal R) (s : σ) : Except ε (Traversal R) × σ :=
  -- Pushed more than once, and visited since.
  if (t.result? node).isSome then (.ok t, s)
  else match context.op? node with
    | none => (.error (ReportsError.report .badNode), s)
    | some op =>
      match op.collect t.result? with
      | some results =>
        match visit node op results s with
        | (.ok result, s) => (.ok (t.store retention node op result), s)
        | (.error e, s) => (.error e, s)
      | none =>
        -- The node waits below those of its operands that have no result yet.
        let pending := op.operands.filter fun operand => (t.result? operand).isNone
        (.ok { t with todo := pending ++ node :: t.todo }, s)

def run [ReportsError ε] (retention : Retention) (context : Context) (visit : Visitor σ ε R) :
    Nat → Traversal R → σ → Except ε (Traversal R) × σ
  | 0, t, s => (.ok t, s)
  | steps + 1, t, s =>
    match t.todo with
    | [] => (.ok t, s)
    | node :: rest =>
      match step retention context visit node { t with todo := rest } s with
      | (.ok t, s) => run retention context visit steps t s
      | (.error e, s) => (.error e, s)

-- Every node but the root is pushed by one that waits, a node waits at most once, and then pushes
-- itself and at most two operands.
def stepBound (context : Context) : Nat := 3 * context.size + 1

end Traversal

namespace Context

variable {σ ε R : Type}

def traverseRetaining [ReportsError ε] (retention : Retention) (context : Context)
    (visit : Visitor σ ε R) (root : Node) (s : σ) : Except ε R × σ :=
  if context.Contains root then
    match Traversal.run retention context visit (Traversal.stepBound context)
        (.start context root) s with
    | (.ok t, s) =>
      match t.result? root with
      | some result => (.ok result, s)
      | none => (.error (ReportsError.report .badNode), s)
    | (.error e, s) => (.error e, s)
  else (.error (ReportsError.report .badNode), s)

def traverse [ReportsError ε] (context : Context) (visit : Visitor σ ε R) (root : Node) (s : σ) :
    Except ε R × σ :=
  context.traverseRetaining .needed visit root s

def postorder [ReportsError ε] (context : Context) (root : Node)
    (visit : Node → Op Node → Op R → Except ε R) : Except ε R :=
  (context.traverse (fun node op results (_ : Unit) => (visit node op results, ())) root ()).1

def fold (context : Context) (root : Node) (layer : Op R → R) : Except Error R :=
  context.postorder root fun _ _ results => .ok (layer results)

end Context

end ExprGraph
