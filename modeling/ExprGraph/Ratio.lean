set_option autoImplicit false

namespace ExprGraph

structure Ratio where
  num : Nat
  den : Nat
deriving DecidableEq, Repr

namespace Ratio

def ofNat (n : Nat) : Ratio := ⟨n, 1⟩

def scale (r : Ratio) (base : Nat) : Int → Ratio
  | .ofNat k => ⟨r.num * base.pow k, r.den⟩
  | .negSucc k => ⟨r.num, r.den * base.pow (k + 1)⟩

def le (a b : Ratio) : Bool := a.num * b.den ≤ b.num * a.den

def lt (a b : Ratio) : Bool := a.num * b.den < b.num * a.den

def floor (r : Ratio) : Nat := r.num / r.den

-- The nearest integer, a half going to the even neighbour.
def nearestEven (r : Ratio) : Nat :=
  let twice := 2 * (r.num % r.den)
  if twice < r.den then r.floor
  else if r.den < twice then r.floor + 1
  else r.floor + r.floor % 2

-- The largest `k` with `2 ^ k ≤ r`. The difference of the lengths is it or one more.
def floorLog2 (r : Ratio) : Int :=
  let guess : Int := (r.num.log2 : Int) - r.den.log2
  if ((ofNat 1).scale 2 guess).le r then guess else guess - 1

def digitCount (n : Nat) : Nat :=
  if n = 0 then 0 else digitCount (n / 10) + 1

def floorLog10 (r : Ratio) : Int :=
  if r.den ≤ r.num then digitCount r.floor - 1
  else -digitCount ((r.den - 1) / r.num)

end Ratio

end ExprGraph
