import ExprGraph.Ieee.Format

set_option autoImplicit false

namespace ExprGraph

structure Decimal where
  coefficient : Nat
  exponent : Int
deriving DecidableEq, Repr

namespace Decimal

def toRatio (d : Decimal) : Ratio := (Ratio.ofNat d.coefficient).scale 10 d.exponent

structure Neighbourhood where
  low : Ratio
  value : Ratio
  high : Ratio
  closed : Bool
deriving Repr

-- The ends lie halfway to the neighbouring floats; below a power of two the next float is half as
-- far away. An end rounds to the even mantissa.
def Neighbourhood.ofFinite (format : Ieee.Format) (m : Nat) (e : Int) : Neighbourhood :=
  let quarters (n : Nat) : Ratio := (Ratio.ofNat n).scale 2 (e - 2)
  let narrow : Bool := m = format.leadingBit ∧ format.minExponent < e
  { low := quarters (4 * m - if narrow then 1 else 2)
    value := quarters (4 * m)
    high := quarters (4 * m + 2)
    closed := m % 2 = 0 }

namespace Neighbourhood

variable (near : Neighbourhood)

def contains (r : Ratio) : Bool :=
  if near.closed then near.low.le r && r.le near.high
  else near.low.lt r && r.lt near.high

-- The better of the two multiples of `10 ^ k` around the value: the nearer one, and of two equally
-- near the larger. There is none if neither rounds to the float.
def onGrid (k : Int) : Option Decimal :=
  let scaled := near.value.scale 10 (-k)
  let below : Decimal := ⟨scaled.floor, k⟩
  let above : Decimal := ⟨scaled.floor + 1, k⟩
  match near.contains below.toRatio, near.contains above.toRatio with
  | true, true =>
    let middle : Ratio := ⟨2 * scaled.floor + 1, 2⟩
    some (if scaled.lt middle then below else above)
  | true, false => some below
  | false, true => some above
  | false, false => none

end Neighbourhood

-- Tries ever finer grids, the first one coarser than the value. Seventeen digits tell all floats
-- apart, so the search ends.
def shortest (m : Nat) (e : Int) : Decimal :=
  let near := Neighbourhood.ofFinite Ieee.binary64 m e
  let top := near.value.floorLog10 + 1
  ((List.range 18).findSome? fun (digits : Nat) => near.onGrid (top - digits)).getD ⟨0, 0⟩

end Decimal

end ExprGraph
