import ExprGraph.Content
import ExprGraph.Error
import ExprGraph.Number
import ExprGraph.Text.Quoted

set_option autoImplicit false

namespace ExprGraph

inductive Literal where
  | bool (value : Bool)
  | int (value : Int64)
  | float (value : Float)
  | text (value : String)
deriving DecidableEq

namespace Literal

instance : Inhabited Literal := ⟨.bool false⟩

def kind : Literal → Kind
  | .bool _ => .bool
  | .int _ => .int
  | .float _ => .float
  | .text _ => .text

-- The kinds in the order in which they are tried.
def variants (takers : Content.Takers) : List (Content → Option Literal) :=
  [fun content => (takers.bool? content).map .bool,
    fun content => (takers.int? content).map .int,
    fun content => (takers.float? content).map .float,
    fun content => (takers.text? content).map .text]

-- A value that was met becomes a literal of the first kind that takes it.
def ofContent? (takers : Content.Takers) (content : Content) : Option Literal :=
  (variants takers).findSome? fun variant => variant content

def ofInt32 (i : Int32) : Literal := .int i.toInt64

-- Kinds differ; floats compare by the usual rules, so NaN differs from itself.
instance : BEq Literal where
  beq
    | .bool a, .bool b => a == b
    | .int a, .int b => a == b
    | .float a, .float b => a == b
    | .text a, .text b => a == b
    | _, _ => false

def asNumber : Literal → Except Error Number
  | .bool b => .ok (.bool b)
  | .int i => .ok (.int i)
  | .float x => .ok (.float x)
  | .text _ => .error (.invalidTerminal .number .text)

def asSymbol : Literal → Except Error String
  | .text s => .ok s
  | other => .error (.invalidTerminal .symbol other.kind)

def repr : Literal → String
  | .bool b => (Number.bool b).repr
  | .int i => (Number.int i).repr
  | .float x => (Number.float x).repr
  | .text s => "Text(" ++ Text.quote s ++ ")"

end Literal

end ExprGraph
