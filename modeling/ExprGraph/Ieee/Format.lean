import ExprGraph.Ratio

set_option autoImplicit false

namespace ExprGraph.Ieee

-- Finite magnitudes are `m * 2 ^ e` with `m < 2 ^ precision` and `minExponent ≤ e`.
structure Format where
  precision : Nat
  minExponent : Int
  exponentBits : Nat
deriving DecidableEq, Repr

def binary32 : Format := ⟨24, -149, 8⟩
def binary64 : Format := ⟨53, -1074, 11⟩

inductive Magnitude where
  | finite (mantissa : Nat) (exponent : Int)
  | infinite
  | nan
deriving DecidableEq, Repr

namespace Format

variable (format : Format)

-- The leading bit of a mantissa, which is also the weight of the exponent field's last bit.
def leadingBit : Nat := 1 <<< (format.precision - 1)

def infinity : Nat := (1 <<< format.exponentBits - 1) * format.leadingBit

def nan : Nat := format.infinity + format.leadingBit / 2

def signBit : Nat := (1 <<< format.exponentBits) * format.leadingBit

-- The least exponent field stands for the magnitudes without a leading bit.
def decode (bits : Nat) : Magnitude :=
  let field := bits / format.leadingBit
  let fraction := bits % format.leadingBit
  if field = 0 then .finite fraction format.minExponent
  else if bits < format.infinity then
    .finite (format.leadingBit + fraction) (format.minExponent + (field - 1 : Nat))
  else if fraction = 0 then .infinite
  else .nan

def round (r : Ratio) : Nat :=
  if r.num = 0 then 0
  else
    let exponent := max format.minExponent (r.floorLog2 - (format.precision - 1 : Nat))
    let field := (exponent - format.minExponent).toNat
    -- A mantissa that rounds up to the next power of two carries into the field above it, and what
    -- lies beyond the last finite magnitude is infinite.
    min format.infinity (field * format.leadingBit + (r.scale 2 (-exponent)).nearestEven)

end Format

def toFloat (negative : Bool) (bits : Nat) : Float :=
  .ofBits (.ofNat (if negative then binary64.signBit + bits else bits))

def isNegative (x : Float) : Bool := binary64.signBit ≤ x.toBits.toNat

def magnitude (x : Float) : Magnitude := binary64.decode (x.toBits.toNat % binary64.signBit)

def isFinite (x : Float) : Bool :=
  match magnitude x with
  | .finite .. => true
  | _ => false

def ofInt (i : Int) : Float := toFloat (i < 0) (binary64.round (.ofNat i.natAbs))

-- The float with the given sign and binary32 magnitude. All of those are exact.
def widen (negative : Bool) (bits : Nat) : Float :=
  toFloat negative <| match binary32.decode bits with
    | .finite m e => binary64.round ((Ratio.ofNat m).scale 2 e)
    | .infinite => binary64.infinity
    | .nan => binary64.nan

end ExprGraph.Ieee
