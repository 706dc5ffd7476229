import ExprGraph.Binding
import ExprGraph.Context.Traversal

set_option autoImplicit false

namespace ExprGraph

inductive EvaluationError where
  | unbound (name : String)
  | expression (error : Error)
deriving DecidableEq, Repr

def EvaluationError.message : EvaluationError → String
  | .unbound name => "symbol `" ++ name ++ "` is not bound"
  | .expression error => error.message

instance : ReportsError EvaluationError := ⟨.expression⟩

def Opcode.apply : Opcode → Float → Float → Float
  | .add, a, b => a + b
  | .sub, a, b => a - b
  | .mul, a, b => a * b
  | .div, a, b => a / b
  | .pow, a, b => a.pow b

def Bindings.evaluateLayer (bindings : Bindings) : Op Float → Except EvaluationError Float
  | .number v => .ok v.toFloat
  | .symbol name =>
    match bindings.lookup? name with
    | some value => .ok value
    | none => .error (.unbound name)
  | .binary code lhs rhs => .ok (code.apply lhs rhs)

def Context.evaluate (context : Context) (root : Node) (bindings : Bindings) :
    Except EvaluationError Float :=
  context.postorder root fun _ _ values => bindings.evaluateLayer values

end ExprGraph
