import ExprGraph.Literal

set_option autoImplicit false

namespace ExprGraph.Json

inductive Fault where
  | malformed
  | shape
deriving DecidableEq, Repr

-- A library that reads single values, or lists of them, of a type that takes what it is offered.
structure Reader (T : Type) where
  value : (Content → Option T) → String → Except Fault T
  list : (Content → Option T) → String → Except Fault (List T)
  -- What the text of a number becomes that is no integer of 64 bits, unless it is too large.
  double : List Char → Option Float

-- Floats that are not finite have no JSON, and null stands for them.
def isWritable : Literal → Bool
  | .float x => Ieee.isFinite x
  | _ => true

structure Writer where
  bool : Bool → String
  signed : Int64 → String
  float : Float → String
  text : String → String
  list : List String → String

def Reader.literal (reader : Reader Literal) (takers : Content.Takers) (text : String) :
    Except Fault Literal :=
  reader.value (Literal.ofContent? takers) text

def Reader.literals (reader : Reader Literal) (takers : Content.Takers) (text : String) :
    Except Fault (List Literal) :=
  reader.list (Literal.ofContent? takers) text

namespace Writer

variable (writer : Writer)

-- A literal is written as its value alone, without a mark of its kind.
def literal : Literal → String
  | .bool b => writer.bool b
  | .int i => writer.signed i
  | .float x => writer.float x
  | .text s => writer.text s

def literals (vs : List Literal) : String := writer.list (vs.map writer.literal)

end Writer

end ExprGraph.Json
