import ExprGraph.Context.Basic

set_option autoImplicit false

namespace ExprGraph.Ladder

def rung (y n : Node) : Build Node := do
  let scaled ← Build.binary .mul (.built n) (.built y)
  let num ← Build.binary .add (.built n) (.built scaled)
  let den ← Build.binary .add (.number (.int 1)) (.built y)
  Build.binary .div (.built num) (.built den)

def climb (y : Node) : Nat → Node → Build Node
  | 0, n => pure n
  | depth + 1, n => do climb y depth (← rung y n)

def build (depth : Nat) : Build Node := do
  let x ← Build.symbol "x"
  let y ← Build.symbol "y"
  climb y depth x

end ExprGraph.Ladder
