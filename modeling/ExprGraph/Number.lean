import ExprGraph.Kind
import ExprGraph.Decimal.Layout

set_option autoImplicit false

namespace ExprGraph

inductive Number where
  | bool (value : Bool)
  | int (value : Int64)
  | float (value : Float)
deriving DecidableEq

namespace Number

instance : Inhabited Number := ⟨.int 0⟩

def kind : Number → Kind
  | .bool _ => .bool
  | .int _ => .int
  | .float _ => .float

def ofInt32 (i : Int32) : Number := .int i.toInt64

-- Large integers are rounded.
def toFloat : Number → Float
  | .bool b => if b then 1 else 0
  | .int i => Ieee.ofInt i.toInt
  | .float x => x

-- The kind matters, and of floats the value, so both zeros are one. There is a single NaN, equal to
-- itself.
def canonical : Number → Number
  | .float x => .float (if x.toBits = (-0.0 : Float).toBits then 0.0 else x)
  | n => n

instance : BEq Number := ⟨fun a b => a.canonical = b.canonical⟩

instance : Hashable Number where
  hash n := match n.canonical with
    | .bool b => mixHash 0 (hash b)
    | .int i => mixHash 1 (hash i.toUInt64)
    | .float x => mixHash 2 (hash x.toBits)

-- Floats keep their point or exponent, and are positional from `1e-4` up to `1e16`.
def floatLayout : Decimal.Layout where
  positional leading := -4 ≤ leading && leading < 16
  keepsFraction := true

def render : Number → String
  | .bool b => if b then "true" else "false"
  | .int i => toString i.toInt
  | .float x => floatLayout.write x

def repr : Number → String
  | .bool b => "Bool(" ++ render (.bool b) ++ ")"
  | .int i => "Int(" ++ render (.int i) ++ ")"
  | .float x => "Float(" ++ render (.float x) ++ ")"

end Number

end ExprGraph
