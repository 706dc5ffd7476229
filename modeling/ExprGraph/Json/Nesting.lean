import ExprGraph.Json.Token

set_option autoImplicit false

namespace ExprGraph.Json

inductive Bracket where
  | array
  | object
deriving DecidableEq

inductive Want where
  | value
  | firstValue
  | firstKey
  | key
  | colon
  | next
deriving DecidableEq

structure Nesting where
  brackets : List Bracket
  want : Want

namespace Nesting

def limit : Nat := 127

def push (nesting : Nesting) (outer : Nat) (bracket : Bracket) (want : Want) : Option Nesting :=
  if outer + nesting.brackets.length < limit then some ⟨bracket :: nesting.brackets, want⟩
  else none

def wantsValue (nesting : Nesting) : Bool :=
  nesting.want = .value || nesting.want = .firstValue

def step (outer : Nat) (nesting : Nesting) (token : Token) : Option Nesting :=
  match token, nesting.brackets with
  | .openArray, _ => if nesting.wantsValue then nesting.push outer .array .firstValue else none
  | .openObject, _ => if nesting.wantsValue then nesting.push outer .object .firstKey else none
  | .closeArray, .array :: rest =>
    if nesting.want = .firstValue ∨ nesting.want = .next then some ⟨rest, .next⟩ else none
  | .closeObject, .object :: rest =>
    if nesting.want = .firstKey ∨ nesting.want = .next then some ⟨rest, .next⟩ else none
  | .comma, .array :: _ =>
    if nesting.want = .next then some { nesting with want := .value } else none
  | .comma, .object :: _ =>
    if nesting.want = .next then some { nesting with want := .key } else none
  | .colon, _ => if nesting.want = .colon then some { nesting with want := .value } else none
  | .scalar content, _ =>
    if nesting.wantsValue then some { nesting with want := .next }
    else match content with
      | .text _ =>
        if nesting.want = .firstKey ∨ nesting.want = .key then some { nesting with want := .colon }
        else none
      | _ => none
  | _, _ => none

def skip (outer : Nat) (nesting : Nesting) : List Token → Option (List Token)
  | [] => none
  | token :: rest => (nesting.step outer token).bind fun nesting =>
    if nesting.brackets = [] then some rest else nesting.skip outer rest

end Nesting

end ExprGraph.Json
