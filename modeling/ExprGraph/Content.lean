import ExprGraph.Ieee.Format

set_option autoImplicit false

namespace ExprGraph

-- What a document offers in one place. No plain value is made from what is inside a list or a map.
inductive Content where
  | unit
  | bool (value : Bool)
  | unsigned (value : UInt64)
  | signed (value : Int64)
  | float (value : Float)
  | text (value : String)
  | list
  | map
deriving DecidableEq

namespace Content

-- How the four plain types take what is offered, where it fits them.
@[ext]
structure Takers where
  bool? : Content → Option Bool
  int? : Content → Option Int64
  float? : Content → Option Float
  text? : Content → Option String

def plainTakers : Takers where
  bool?
    | .bool b => some b
    | _ => none
  int?
    | .signed i => some i
    | .unsigned n => if n.toNat < 1 <<< 63 then some (.ofNat n.toNat) else none
    | _ => none
  float?
    | .float x => some x
    | .signed i => some (Ieee.ofInt i.toInt)
    | .unsigned n => some (Ieee.ofInt n.toNat)
    | _ => none
  text?
    | .text s => some s
    | _ => none

end Content

end ExprGraph
