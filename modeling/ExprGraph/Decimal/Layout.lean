import ExprGraph.Decimal.Shortest

set_option autoImplicit false

namespace ExprGraph.Decimal

structure Layout where
  positional : Int → Bool
  keepsFraction : Bool

namespace Layout

variable (layout : Layout)

def writePositional (digits : List Char) (leading : Int) : List Char :=
  match leading with
  | .negSucc zeros => '0' :: '.' :: List.replicate zeros '0' ++ digits
  | .ofNat k =>
    let whole := digits.take (k + 1)
    let fraction := digits.drop (k + 1)
    let filled := whole ++ List.replicate (k + 1 - whole.length) '0'
    if fraction ≠ [] then filled ++ '.' :: fraction
    else if layout.keepsFraction then filled ++ ['.', '0']
    else filled

def writeScientific (digits : List Char) (leading : Int) : List Char :=
  let mantissa := match digits with
    | first :: rest@(_ :: _) => first :: '.' :: rest
    | short => short
  mantissa ++ 'e' :: (toString leading).toList

def writeDecimal (d : Decimal) : List Char :=
  let digits := Nat.toDigits 10 d.coefficient
  let leading := d.exponent + (digits.length - 1 : Nat)
  if layout.positional leading then layout.writePositional digits leading
  else writeScientific digits leading

def writeMagnitude : Ieee.Magnitude → List Char
  | .finite 0 _ => if layout.keepsFraction then ['0', '.', '0'] else ['0']
  | .finite m e => layout.writeDecimal (shortest m e)
  | .infinite => "inf".toList
  | .nan => "NaN".toList

-- NaN is written without a sign.
def write (x : Float) : String :=
  let text := layout.writeMagnitude (Ieee.magnitude x)
  let signed := Ieee.isNegative x && Ieee.magnitude x != .nan
  .ofList (if signed then '-' :: text else text)

end Layout

end ExprGraph.Decimal
