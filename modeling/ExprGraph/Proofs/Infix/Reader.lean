import ExprGraph.Proofs.Infix.Grammar

set_option autoImplicit false

namespace ExprGraph

namespace Infix

-- Operators that wait for their right operands, the last one first, and their left operands.
abbrev Waiting := List (Expr × Opcode)

def settle (level : Nat) : Waiting → Expr → Expr × Waiting
  | (lhs, code) :: waiting, e =>
    if level ≤ code.precedence then settle level waiting (.binary code lhs e)
    else (e, (lhs, code) :: waiting)
  | [], e => (e, [])

def operator? (word : String) : Option Opcode := Opcode.all.find? fun code => code.token = word

def operand? (word : String) : Option Expr :=
  match Number.ofText? word, operator? word with
  | some v, _ => some (.number v)
  | none, some _ => none
  | none, none => some (.symbol word)

-- What waits inside of each open parenthesis, and the operand before the tokens if there is one.
def readFrom? : List Token → List Waiting → Waiting → Option Expr → Option Expr
  | .opening :: rest, outer, waiting, none => readFrom? rest (waiting :: outer) [] none
  | .word word :: rest, outer, waiting, none =>
    (operand? word).bind fun e => readFrom? rest outer waiting (some e)
  | .closing :: rest, around :: outer, waiting, some e =>
    readFrom? rest outer around (some (settle 0 waiting e).1)
  | .space :: .word word :: .space :: rest, outer, waiting, some e =>
    (operator? word).bind fun code =>
      let (lhs, waiting) := settle code.precedence waiting e
      readFrom? rest outer ((lhs, code) :: waiting) none
  | [], [], waiting, some e => some (settle 0 waiting e).1
  | _, _, _, _ => none

variable {level lower : Nat} {waiting more : Waiting} {e f : Expr} {tokens : List Token}

theorem settle_append (settled : settle level waiting e = (f, [])) (more : Waiting) :
    settle level (waiting ++ more) e = settle level more f := by
  induction waiting generalizing e with
  | nil =>
    obtain rfl := congrArg Prod.fst settled
    rfl
  | cons operation waiting ih =>
    simp only [settle] at settled
    split at settled
    next binds =>
      simp only [List.cons_append, settle, if_pos binds]
      exact ih settled
    next => simp at settled

theorem settle_mono (settled : settle level waiting e = (f, [])) (weaker : lower ≤ level) :
    settle lower waiting e = (f, []) := by
  induction waiting generalizing e with
  | nil => exact settled
  | cons operation waiting ih =>
    simp only [settle] at settled ⊢
    split at settled
    next binds =>
      rw [if_pos (weaker.trans binds)]
      exact ih settled
    next => simp at settled

-- Nothing that waits binds as tightly as the level.
def Loose (level : Nat) (waiting : Waiting) : Prop :=
  ∀ operation ∈ waiting.head?, operation.2.precedence < level

theorem settle_of_loose (loose : Loose level waiting) (e : Expr) :
    settle level waiting e = (e, waiting) := by
  cases waiting with
  | nil => rfl
  | cons operation waiting =>
    have looser := loose operation rfl
    simp only [settle]
    rw [if_neg (by omega)]

theorem operator?_token (code : Opcode) : operator? code.token = some code := by
  cases code <;> rfl

theorem operand?_render (v : Number) : operand? v.render = some (.number v) := by
  rw [operand?, Number.ofText?_eq_some_iff.mpr rfl]

theorem operand?_name {name : String} (noNumber : ∀ v : Number, v.render ≠ name)
    (noOperator : ∀ code : Opcode, code.token ≠ name) : operand? name = some (.symbol name) := by
  have noCode : operator? name = none :=
    List.find?_eq_none.mpr fun code _ => by simpa using noOperator code
  rw [operand?, Number.ofText?_eq_none_iff.mpr noNumber, noCode]

theorem exists_readFrom?_append (reads : Reads level tokens e) :
    ∃ waits operand, settle level waits operand = (e, []) ∧
      ∀ rest outer waiting, Loose level waiting →
        readFrom? (tokens ++ rest) outer waiting none =
          readFrom? rest outer (waits ++ waiting) (some operand) := by
  induction reads with
  | number level v =>
    refine ⟨[], .number v, rfl, fun rest outer waiting _ => ?_⟩
    simp [readFrom?, operand?_render]
  | symbol level noNumber noOperator =>
    refine ⟨[], _, rfl, fun rest outer waiting _ => ?_⟩
    simp [readFrom?, operand?_name noNumber noOperator]
  | @parentheses level tokens e inner ih =>
    obtain ⟨waits, operand, settled, step⟩ := ih
    refine ⟨[], e, rfl, fun rest outer waiting _ => ?_⟩
    rw [List.cons_append, readFrom?, List.append_assoc, step _ _ _ (by simp [Loose])]
    simp [readFrom?, settled]
  | @operator level code left right lhs rhs binds first second firstIH secondIH =>
    obtain ⟨leftWaits, leftOperand, leftSettled, leftStep⟩ := firstIH
    obtain ⟨rightWaits, rightOperand, rightSettled, rightStep⟩ := secondIH
    refine ⟨rightWaits ++ [(lhs, code)], rightOperand, ?_, fun rest outer waiting loose => ?_⟩
    · rw [settle_append (settle_mono rightSettled (by omega))]
      simp [settle, binds]
    · have looser : Loose code.precedence waiting := fun operation member =>
        (loose operation member).trans_le binds
      have settled :
          settle code.precedence (leftWaits ++ waiting) leftOperand = (lhs, waiting) := by
        rw [settle_append leftSettled, settle_of_loose looser]
      have right := rightStep rest outer ((lhs, code) :: waiting) (by simp [Loose])
      rw [List.append_assoc, leftStep _ _ _ looser]
      simp [readFrom?, operator?_token, settled, right]

theorem readFrom?_eq (reads : Reads 0 tokens e) : readFrom? tokens [] [] none = some e := by
  obtain ⟨waits, operand, settled, step⟩ := exists_readFrom?_append reads
  have done := step [] [] [] (by simp [Loose])
  rw [List.append_nil, List.append_nil] at done
  rw [done, readFrom?, settled]

end Infix

theorem Reads.unique {tokens : List Token} {e f : Expr} (first : Reads 0 tokens e)
    (second : Reads 0 tokens f) : e = f :=
  Option.some.inj ((Infix.readFrom?_eq first).symm.trans (Infix.readFrom?_eq second))

end ExprGraph
