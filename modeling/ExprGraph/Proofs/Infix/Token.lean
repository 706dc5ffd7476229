import ExprGraph.Context.Render
import ExprGraph.Proofs.Number.Text

set_option autoImplicit false

namespace ExprGraph

inductive Token where
  | opening
  | closing
  | space
  | word (text : String)
deriving DecidableEq, Repr

namespace Token

def ofSeparator? : Char → Option Token
  | '(' => some .opening
  | ')' => some .closing
  | ' ' => some .space
  | _ => none

def letter (c : Char) : List Token → List Token
  | .word text :: rest => .word (.ofList (c :: text.toList)) :: rest
  | rest => .word (.ofList [c]) :: rest

def cons (c : Char) (rest : List Token) : List Token :=
  match ofSeparator? c with
  | some separator => separator :: rest
  | none => letter c rest

def IsWord (text : String) : Prop := text ≠ "" ∧ ∀ c ∈ text.toList, ofSeparator? c = none

-- Not over all characters, which are many.
instance (text : String) : Decidable (IsWord text) :=
  have : Decidable (∀ c ∈ text.toList, ofSeparator? c = none) :=
    List.decidableBAll (fun c => ofSeparator? c = none) text.toList
  inferInstanceAs (Decidable (text ≠ "" ∧ ∀ c ∈ text.toList, ofSeparator? c = none))

def Apart (rest : List Token) : Prop := ∀ text more, rest ≠ .word text :: more

end Token

end ExprGraph
