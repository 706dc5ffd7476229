import ExprGraph.Decimal.Reader
import ExprGraph.Text.Blank

set_option autoImplicit false

namespace ExprGraph

structure Binding where
  name : String
  value : Float

namespace Binding

inductive Fault where
  | noEquals (text : String)
  | emptyValue (name : String)
  | invalidValue (name : String)
deriving DecidableEq, Repr

def Fault.message : Fault → String
  | .noEquals text => "expected NAME=VALUE, got `" ++ text ++ "`"
  | .emptyValue name => "invalid value for `" ++ name ++ "`: cannot parse float from empty string"
  | .invalidValue name => "invalid value for `" ++ name ++ "`: invalid float literal"

def read (text : String) : Except Fault Binding :=
  let name := text.toList.takeWhile (· ≠ '=')
  match text.toList.dropWhile (· ≠ '=') with
  | [] => .error (.noEquals text)
  | _ :: rest =>
    let value := Text.trim rest
    match Decimal.readFloat? (.ofList value) with
    | some value => .ok ⟨.ofList (Text.trim name), value⟩
    | none =>
      if value = [] then .error (.emptyValue (.ofList name))
      else .error (.invalidValue (.ofList name))

end Binding

abbrev Bindings := List Binding

def Bindings.lookup? (bindings : Bindings) (name : String) : Option Float :=
  (bindings.findRev? fun binding => binding.name = name).map (·.value)

end ExprGraph
