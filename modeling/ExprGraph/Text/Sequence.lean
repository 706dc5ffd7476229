set_option autoImplicit false

namespace ExprGraph.Text

-- The sequence that a character stands in, and how far it has been read.
inductive Sequence where
  | none
  | escape
  | escapeIntermediate
  | control
  | command
  | device
  | deviceParameter
  | deviceIntermediate
  | string
deriving DecidableEq, Repr

namespace Sequence

def afterAscii (sequence : Sequence) (n : Nat) : Sequence :=
  if n = 0x18 ∨ n = 0x1A then .none
  else if n = 0x1B then .escape
  else match sequence with
    | .none => .none
    | .escape =>
      if n < 0x20 ∨ n = 0x7F then .escape
      else if n < 0x30 then .escapeIntermediate
      else if n = 0x5B then .control
      else if n = 0x5D then .command
      else if n = 0x50 then .device
      else if n = 0x58 ∨ n = 0x5E ∨ n = 0x5F then .string
      else .none
    | .escapeIntermediate => if 0x30 ≤ n ∧ n ≠ 0x7F then .none else .escapeIntermediate
    | .control => if 0x40 ≤ n ∧ n ≠ 0x7F then .none else .control
    | .command => if n = 0x07 then .none else .command
    | .device =>
      if n < 0x20 ∨ n = 0x7F then .device
      else if n < 0x30 then .deviceIntermediate
      else if n < 0x40 then .deviceParameter
      else .string
    | .deviceParameter =>
      if n < 0x20 ∨ n = 0x7F then .deviceParameter
      else if n < 0x30 then .deviceIntermediate
      else if n < 0x3C then .deviceParameter
      else .string
    | .deviceIntermediate => if n < 0x30 ∨ n = 0x7F then .deviceIntermediate else .string
    | .string => .string

def after (sequence : Sequence) (c : Char) : Sequence :=
  if c.toNat < 0x80 then sequence.afterAscii c.toNat
  -- The byte that ends a string does so inside the encoding of a character as well.
  else if sequence = .string ∧ 0x9C ∈ String.utf8EncodeChar c then .none
  else sequence

def isSpacing (c : Char) : Bool := c = '\t' || c = '\n' || c = '\x0c' || c = '\r'

-- Controls act inside sequences other than commands and strings, so white space is shown there.
def shows (sequence : Sequence) (c : Char) : Bool :=
  match sequence with
  | .none => isSpacing c || (0x20 ≤ c.toNat && c.toNat ≠ 0x7F)
  | .escape | .escapeIntermediate | .control => isSpacing c
  | _ => false

end Sequence

-- The sequence read so far, and whether text is being shown. After white space inside a sequence
-- all is shown up to the next control character, where the sequence goes on.
structure Display where
  sequence : Sequence
  showing : Bool

namespace Display

def start : Display := ⟨.none, false⟩

def shows (display : Display) (c : Char) : Bool :=
  (if display.showing then .none else display.sequence : Sequence).shows c

def after (display : Display) (c : Char) : Display :=
  if display.shows c then
    ⟨if c.toNat < 0x80 then display.sequence else .none, true⟩
  else ⟨display.sequence.after c, false⟩

def visible (display : Display) : List Char → List Char
  | [] => []
  | c :: rest =>
    let shown := (display.after c).visible rest
    if display.shows c then c :: shown else shown

end Display

def withoutControls (text : String) : String := .ofList (Display.start.visible text.toList)

def emphasize (text : String) : String := "\x1b[1m" ++ text ++ "\x1b[0m"

end ExprGraph.Text
