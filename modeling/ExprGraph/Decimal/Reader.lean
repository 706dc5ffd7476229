import ExprGraph.Decimal.Shortest

set_option autoImplicit false

namespace ExprGraph.Decimal

-- Zeros at the end of the fraction are no digits of the number.
def ofParts (whole fraction : List Char) (exponent : Int) : Decimal :=
  let fraction := (fraction.reverse.dropWhile (· = '0')).reverse
  ⟨Nat.ofDigitChars 10 (whole ++ fraction) 0, exponent - fraction.length⟩

-- Keeps a number of leading digits. If there are more, a single one stands for them, whatever they
-- are.
def abridge (limit : Nat) (d : Decimal) : Decimal :=
  match Ratio.digitCount d.coefficient - limit with
  | 0 => d
  | dropped + 1 => ⟨10 * (d.coefficient / Nat.pow 10 (dropped + 1)) + 1, d.exponent + dropped⟩

-- The bits of the nearest magnitude. No format here holds `10 ^ 400` or its inverse, so outside
-- them the power is not computed.
def round (format : Ieee.Format) (d : Decimal) : Nat :=
  let length := d.exponent + Ratio.digitCount d.coefficient
  if d.coefficient = 0 ∨ length < -400 then 0
  else if 400 < length then format.infinity
  else format.round d.toRatio

def splitSign : List Char → Bool × List Char
  | '-' :: rest => (true, rest)
  | '+' :: rest => (false, rest)
  | unsigned => (false, unsigned)

def readDigits? (cs : List Char) : Option Nat :=
  if cs ≠ [] ∧ cs.all Char.isDigit then some (Nat.ofDigitChars 10 cs 0) else none

def readInteger? (cs : List Char) : Option Int :=
  let (negative, digits) := splitSign cs
  (readDigits? digits).map fun n => if negative then -n else n

def readExponent? : List Char → Option Int
  | [] => some 0
  | c :: rest => if c = 'e' ∨ c = 'E' then readInteger? rest else none

def read? (cs : List Char) : Option Decimal :=
  let whole := cs.takeWhile Char.isDigit
  let (fraction, rest) := match cs.dropWhile Char.isDigit with
    | '.' :: rest => (rest.takeWhile Char.isDigit, rest.dropWhile Char.isDigit)
    | rest => ([], rest)
  if whole = [] ∧ fraction = [] then none
  else (readExponent? rest).map (ofParts whole fraction)

def readMagnitude? (format : Ieee.Format) (cs : List Char) : Option Nat :=
  let word := String.ofList (cs.map Char.toLower)
  if word = "inf" ∨ word = "infinity" then some format.infinity
  else if word = "nan" then some format.nan
  else (read? cs).map (round format)

def readFloat? (text : String) : Option Float :=
  let (negative, unsigned) := splitSign text.toList
  (readMagnitude? Ieee.binary64 unsigned).map (Ieee.toFloat negative)

-- Reads a literal in single precision; the float holds that value exactly.
def readSingle? (text : String) : Option Float :=
  let (negative, unsigned) := splitSign text.toList
  (readMagnitude? Ieee.binary32 unsigned).map (Ieee.widen negative)

end ExprGraph.Decimal
