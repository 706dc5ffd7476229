import ExprGraph.Tree.Exchange

set_option autoImplicit false

namespace ExprGraph

inductive Call where
  | number (value : Number)
  | symbol (name : String)
  | tryNumber (value : Literal)
  | trySymbol (value : Literal)
  | binary (code : Opcode) (lhs rhs : Operand Node)
  | importTree (t : Tree)
  | clear

def Context.after (context : Context) : Call → Context
  | .number v => ((Build.number v).run context).2
  | .symbol s => ((Build.symbol s).run context).2
  | .tryNumber v => ((Build.tryNumber v).run context).2
  | .trySymbol v => ((Build.trySymbol v).run context).2
  | .binary code lhs rhs => ((Build.binary code lhs rhs).run context).2
  | .importTree t => (context.importTree t).2
  | .clear => .empty

inductive Context.Reachable : Context → Prop where
  | empty : Reachable .empty
  | after {context : Context} (call : Call) (h : Reachable context) :
      Reachable (context.after call)

abbrev Session := Nat → Context

namespace Session

def start : Session := fun _ => .empty

def after (session : Session) (index : Nat) (call : Call) : Session :=
  fun i => if i = index then (session i).after call else session i

-- The contexts after calls, each made on the context with the number that it comes with.
def run (calls : List (Nat × Call)) : Session :=
  calls.foldl (fun session (index, call) => session.after index call) start

end Session

end ExprGraph
