import ExprGraph.Context.Checked

set_option autoImplicit false

namespace ExprGraph.Checked

variable {σ ε R : Type}

structure Counting where
  seen : Array Bool
  uses : Array Nat
  todo : List Node

namespace Counting

def start (context : Context) (root : Node) : Counting where
  seen := Array.replicate context.size false
  uses := Array.replicate context.size 0
  todo := [root]

def turn (context : Context) (c : Counting) : Option Counting :=
  match c.todo with
  | [] => none
  | node :: rest => do
    if ← read c.seen node then return { c with todo := rest }
    let seen ← write c.seen node true
    let op ← context.op? node
    let uses ← op.operands.foldlM addUse c.uses
    -- The operands are pushed one after the other, so the last of them comes up first.
    return ⟨seen, uses, op.operands.reverse ++ rest⟩

end Counting

def turn (context : Context) (visit : ExprGraph.Visitor σ ε R) :
    Except ε (Traversal R) × σ → Option (Except ε (Traversal R) × σ)
  | (.ok t, s) =>
    match t.todo with
    | [] => none
    | node :: rest =>
      step context (fun node op results s => some (visit node op results s)) node
        { t with todo := rest } s
  | (.error _, _) => none

end ExprGraph.Checked
