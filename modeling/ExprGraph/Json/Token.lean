import ExprGraph.Content
import ExprGraph.Decimal.Reader
import ExprGraph.Json.Escape

set_option autoImplicit false

namespace ExprGraph.Json

inductive Token where
  | openArray
  | closeArray
  | openObject
  | closeObject
  | comma
  | colon
  | scalar (content : Content)
  | fault
deriving DecidableEq

-- So many digits tell on which side of the middle between two floats a decimal lies, but the middle
-- itself counts as greater if more zeros follow.
def digitLimit : Nat := 768

def readDouble? (cs : List Char) : Option Float :=
  let (negative, unsigned) := Decimal.splitSign cs
  (Decimal.read? unsigned).bind fun d =>
    let bits := (d.abridge digitLimit).round Ieee.binary64
    if bits = Ieee.binary64.infinity then none else some (Ieee.toFloat negative bits)

-- Digits alone are a word if it has room for them, and so are those after a minus, except for zero.
def readNumber? (cs : List Char) : Option Content :=
  let (negative, unsigned) := Decimal.splitSign cs
  let integral := unsigned.all Char.isDigit
  let n := Nat.ofDigitChars 10 unsigned 0
  if integral ∧ ¬negative ∧ n < 1 <<< 64 then some (.unsigned (.ofNat n))
  else if integral ∧ negative ∧ n ≠ 0 ∧ n ≤ 1 <<< 63 then some (.signed (.ofInt (-n)))
  else (readDouble? cs).map .float

-- How much of a number has been read: a minus, a leading zero, other leading digits, the point,
-- digits after it, the mark of the exponent, its sign and its digits.
inductive Phase where
  | minus
  | zero
  | whole
  | point
  | fraction
  | mark
  | sign
  | exponent
deriving DecidableEq

namespace Phase

def ofFirst? (c : Char) : Option Phase :=
  if c = '-' then some .minus
  else if c = '0' then some .zero
  else if c.isDigit then some .whole
  else none

def isComplete : Phase → Bool
  | .zero | .whole | .fraction | .exponent => true
  | .minus | .point | .mark | .sign => false

def next? (phase : Phase) (c : Char) : Option Phase :=
  let digit (after : Phase) : Option Phase := if c.isDigit then some after else none
  let mark : Option Phase := if c = 'e' ∨ c = 'E' then some .mark else none
  let point : Option Phase := if c = '.' then some .point else none
  match phase with
  | .minus => if c = '0' then some .zero else digit .whole
  | .zero => point <|> mark
  | .whole => digit .whole <|> point <|> mark
  | .point => digit .fraction
  | .fraction => digit .fraction <|> mark
  | .mark => if c = '+' ∨ c = '-' then some .sign else digit .exponent
  | .sign => digit .exponent
  | .exponent => digit .exponent

end Phase

-- Where a scan is. Text read so far is kept in reverse.
inductive Mode where
  | between
  | word (rest : List Char) (token : Token)
  | number (phase : Phase) (read : List Char)
  | text (read : List Char)
  | escape (read : List Char)
  -- After a unit of the upper half of a pair, before the escape of the lower half.
  | pair (read : List Char) (high : Nat)
  | pairEscape (read : List Char) (high : Nat)
  -- Inside the four digits of a unit.
  | unit (read : List Char) (high : Option Nat) (digits : Nat) (value : Nat)
  | stopped

structure Scan where
  mode : Mode
  tokens : List Token

namespace Scan

def emit (scan : Scan) (token : Token) : Scan :=
  ⟨.between, token :: scan.tokens⟩

def stop (scan : Scan) : Scan :=
  ⟨.stopped, .fault :: scan.tokens⟩

def enter (scan : Scan) (mode : Mode) : Scan :=
  { scan with mode }

def endNumber (scan : Scan) (phase : Phase) (read : List Char) : Scan :=
  match readNumber? read.reverse with
  | some content => if phase.isComplete then scan.emit (.scalar content) else scan.stop
  | none => scan.stop

def startToken (scan : Scan) (c : Char) : Scan :=
  match c with
  | ' ' | '\n' | '\t' | '\r' => scan
  | '[' => scan.emit .openArray
  | ']' => scan.emit .closeArray
  | '\x7b' => scan.emit .openObject
  | '\x7d' => scan.emit .closeObject
  | ',' => scan.emit .comma
  | ':' => scan.emit .colon
  | '"' => scan.enter (.text [])
  | 'n' => scan.enter (.word ['u', 'l', 'l'] (.scalar .unit))
  | 't' => scan.enter (.word ['r', 'u', 'e'] (.scalar (.bool true)))
  | 'f' => scan.enter (.word ['a', 'l', 's', 'e'] (.scalar (.bool false)))
  | _ =>
    match Phase.ofFirst? c with
    | some phase => scan.enter (.number phase [c])
    | none => scan.stop

def endUnit (scan : Scan) (read : List Char) (high : Option Nat) (unit : Nat) : Scan :=
  match high with
  | none =>
    -- Units from `D800` to `DFFF` only stand for a character as a pair, upper half first.
    if unit < 0xD800 ∨ 0xDFFF < unit then scan.enter (.text (.ofNat unit :: read))
    else if unit < 0xDC00 then scan.enter (.pair read unit)
    else scan.stop
  | some high =>
    if 0xDC00 ≤ unit ∧ unit ≤ 0xDFFF then
      let code := 0x10000 + (high - 0xD800) * 0x400 + (unit - 0xDC00)
      scan.enter (.text (.ofNat code :: read))
    else scan.stop

def step (scan : Scan) (c : Char) : Scan :=
  match scan.mode with
  | .between => scan.startToken c
  | .word [] _ => scan.stop
  | .word [last] token => if c = last then scan.emit token else scan.stop
  | .word (next :: rest) token => if c = next then scan.enter (.word rest token) else scan.stop
  | .number phase read =>
    match phase.next? c with
    | some next => scan.enter (.number next (c :: read))
    | none =>
      -- A leading zero stands alone.
      if phase = .zero ∧ c.isDigit then scan.stop
      else
        let ended := scan.endNumber phase read
        match ended.mode with
        | .between => ended.startToken c
        | _ => ended
  | .text read =>
    match c with
    | '"' => scan.emit (.scalar (.text (.ofList read.reverse)))
    | '\\' => scan.enter (.escape read)
    | _ => if c.toNat < 0x20 then scan.stop else scan.enter (.text (c :: read))
  | .escape read =>
    if c = 'u' then scan.enter (.unit read none 0 0)
    else match unescape? c with
      | some plain => scan.enter (.text (plain :: read))
      | none => scan.stop
  | .pair read high => if c = '\\' then scan.enter (.pairEscape read high) else scan.stop
  | .pairEscape read high => if c = 'u' then scan.enter (.unit read (some high) 0 0) else scan.stop
  | .unit read high digits value =>
    match hexDigit? c with
    | none => scan.stop
    | some d =>
      let value := 16 * value + d
      if digits + 1 < 4 then scan.enter (.unit read high (digits + 1) value)
      else scan.endUnit read high value
  | .stopped => scan

def finish (scan : Scan) : List Token :=
  let ended := match scan.mode with
    | .between | .stopped => scan
    | .number phase read => scan.endNumber phase read
    | _ => scan.stop
  ended.tokens.reverse

end Scan

def tokens (text : String) : List Token :=
  (text.toList.foldl Scan.step ⟨.between, []⟩).finish

end ExprGraph.Json
