import ExprGraph.Context.Basic

set_option autoImplicit false

namespace ExprGraph.Context

def operandsOf (context : Context) (node : Node) : List Node :=
  match context.op? node with
  | some op => op.operands
  | none => []

def addUses (uses : Array Nat) (operands : List Node) : Array Nat :=
  operands.foldl (fun uses operand => uses.modify operand.index (· + 1)) uses

@[simp] theorem size_addUses (uses : Array Nat) (operands : List Node) :
    (addUses uses operands).size = uses.size := by
  induction operands generalizing uses with
  | nil => rfl
  | cons operand rest ih => simpa [addUses] using ih (uses.modify operand.index (· + 1))

def countUsesFrom (context : Context) (seen : Array Bool) (uses : Array Nat) :
    List Node → Array Nat
  | [] => uses
  | node :: rest =>
    if h : node.index < seen.size then
      if seen[node.index] then countUsesFrom context seen uses rest
      else
        let operands := context.operandsOf node
        countUsesFrom context (seen.set node.index true) (addUses uses operands) (operands ++ rest)
    else countUsesFrom context seen uses rest
-- A step takes a node from the unseen or shortens the list.
termination_by todo => (seen.count false, todo.length)
decreasing_by
  · exact Prod.Lex.right _ (by simp)
  · apply Prod.Lex.left
    have unseen : false ∈ seen := Array.mem_of_getElem (by simpa using ‹¬seen[node.index] = true›)
    have := Array.count_pos_iff.mpr unseen
    grind
  · exact Prod.Lex.right _ (by simp)

def countUses (context : Context) (root : Node) : Array Nat :=
  context.countUsesFrom (Array.replicate context.size false) (Array.replicate context.size 0) [root]

end ExprGraph.Context
