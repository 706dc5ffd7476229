import ExprGraph.Text.Unprintable
import ExprGraph.Text.Extender

set_option autoImplicit false

namespace ExprGraph.Text

def isPlain (c : Char) : Bool :=
  if c.toNat < 0x7F then 0x20 ≤ c.toNat
  else !unprintable.contains c && !extenders.contains c

def escape (c : Char) : List Char :=
  match c with
  | '"' => ['\\', '"']
  | '\\' => ['\\', '\\']
  | '\n' => ['\\', 'n']
  | '\r' => ['\\', 'r']
  | '\t' => ['\\', 't']
  | _ =>
    if c.toNat = 0 then ['\\', '0']
    else if isPlain c then [c]
    else '\\' :: 'u' :: '\x7b' :: Nat.toDigits 16 c.toNat ++ ['\x7d']

def quoteChars (cs : List Char) : List Char := '"' :: cs.flatMap escape ++ ['"']

def quote (text : String) : String := .ofList (quoteChars text.toList)

end ExprGraph.Text
