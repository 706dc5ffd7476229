import ExprGraph.Context.Render
import ExprGraph.Expr
import ExprGraph.Proofs.Number.Text
import ExprGraph.Proofs.Text.Quoted

set_option autoImplicit false

namespace ExprGraph

open Decimal (IsNumeric)

theorem Opcode.isNumeric_name (code : Opcode) : IsNumeric code.name.toList := by
  cases code <;> exact Decimal.isNumeric_of_isAlphanum rfl

theorem Opcode.name_ne_nil (code : Opcode) : code.name.toList ≠ [] := by
  cases code <;> decide

theorem Opcode.name_inj {code code' : Opcode} (same : code.name.toList = code'.name.toList) :
    code = code' := by
  revert same
  cases code <;> cases code' <;> decide

namespace Text

variable {word rest rest' s : List Char}

theorem numeric_ne_quoteChars (numeric : IsNumeric word) (nonempty : word ≠ []) :
    word ++ rest ≠ quoteChars s ++ rest' := by
  intro same
  obtain ⟨c, tail, rfl⟩ := List.exists_cons_of_ne_nil nonempty
  obtain rfl : c = '"' := (List.cons.inj same).1
  have mark := numeric '"' List.mem_cons_self
  revert mark
  decide

def Ends (rest : List Char) : Prop := ∀ c ∈ rest.head?, c = ',' ∨ c = ')'

theorem Ends.nil : Ends [] := by simp [Ends]

theorem Ends.comma (rest : List Char) : Ends (',' :: rest) := by simp [Ends]

theorem Ends.closing (rest : List Char) : Ends (')' :: rest) := by simp [Ends]

theorem Ends.not_numeric (ends : Ends rest) :
    ∀ c ∈ rest.head?, ¬ (c.isAlphanum ∨ c = '-' ∨ c = '.') := by
  intro c first
  rcases ends c first with rfl | rfl <;> decide

theorem Ends.ne_opening (ends : Ends rest) (inner : List Char) : rest ≠ '(' :: inner := by
  rintro rfl
  have opening := ends '(' rfl
  revert opening
  decide

theorem opening_not_numeric (inner : List Char) :
    ∀ c ∈ ('(' :: inner).head?, ¬ (c.isAlphanum ∨ c = '-' ∨ c = '.') := by
  rintro c ⟨⟩
  decide

end Text

namespace Expr

open Text

def prefixChars (e : Expr) : List Char := (e.fold Context.reprLayer).toList

variable {e d lhs rhs : Expr} {code : Opcode} {v : Number} {s : String} {rest rest' : List Char}

theorem prefixChars_number (v : Number) : (number v).prefixChars = v.render.toList := rfl

theorem prefixChars_symbol (s : String) : (symbol s).prefixChars = quoteChars s.toList :=
  String.toList_ofList

theorem prefixChars_binary (code : Opcode) (lhs rhs : Expr) (rest : List Char) :
    (binary code lhs rhs).prefixChars ++ rest = code.name.toList ++
      '(' :: (lhs.prefixChars ++ ',' :: ' ' :: (rhs.prefixChars ++ ')' :: rest)) := by
  simp [prefixChars, fold, Context.reprLayer, String.toList_append]

theorem prefixChars_number_ne_symbol :
    (number v).prefixChars ++ rest ≠ (symbol s).prefixChars ++ rest' := by
  obtain ⟨c, member, _⟩ := v.exists_isAlphanum_mem_render
  rw [prefixChars_symbol]
  exact numeric_ne_quoteChars v.isNumeric_render (List.ne_nil_of_mem member)

theorem prefixChars_binary_ne_symbol :
    (binary code lhs rhs).prefixChars ++ rest ≠ (symbol s).prefixChars ++ rest' := by
  rw [prefixChars_binary, prefixChars_symbol]
  exact numeric_ne_quoteChars code.isNumeric_name code.name_ne_nil

theorem prefixChars_number_ne_binary (ends : Ends rest) :
    (number v).prefixChars ++ rest ≠ (binary code lhs rhs).prefixChars ++ rest' := by
  rw [prefixChars_binary]
  intro same
  exact ends.ne_opening _ (word_append_inj v.isNumeric_render code.isNumeric_name ends.not_numeric
    (opening_not_numeric _) same).2

theorem prefixChars_append_inj (ends : Ends rest) (ends' : Ends rest')
    (same : e.prefixChars ++ rest = d.prefixChars ++ rest') : e = d ∧ rest = rest' := by
  induction e generalizing d rest rest' with
  | number v => cases d with
    | number w =>
      rw [prefixChars_number, prefixChars_number] at same
      obtain ⟨words, rests⟩ := word_append_inj v.isNumeric_render w.isNumeric_render
        ends.not_numeric ends'.not_numeric same
      exact ⟨congrArg number (Number.render_injective (String.toList_inj.mp words)), rests⟩
    | symbol => exact absurd same prefixChars_number_ne_symbol
    | binary => exact absurd same (prefixChars_number_ne_binary ends)
  | symbol s => cases d with
    | number => exact absurd same.symm prefixChars_number_ne_symbol
    | symbol r =>
      rw [prefixChars_symbol, prefixChars_symbol] at same
      obtain ⟨names, rests⟩ := quoteChars_append_inj same
      exact ⟨congrArg symbol (String.toList_inj.mp names), rests⟩
    | binary => exact absurd same.symm prefixChars_binary_ne_symbol
  | binary code lhs rhs left right => cases d with
    | number => exact absurd same.symm (prefixChars_number_ne_binary ends')
    | symbol => exact absurd same prefixChars_binary_ne_symbol
    | binary code' lhs' rhs' =>
      rw [prefixChars_binary, prefixChars_binary] at same
      obtain ⟨names, operands⟩ := word_append_inj code.isNumeric_name code'.isNumeric_name
        (opening_not_numeric _) (opening_not_numeric _) same
      obtain ⟨rfl, later⟩ := left (.comma _) (.comma _) (List.cons.inj operands).2
      simp only [List.cons.injEq, true_and] at later
      obtain ⟨rfl, closed⟩ := right (.closing _) (.closing _) later
      exact ⟨by rw [Opcode.name_inj names], (List.cons.inj closed).2⟩

theorem fold_reprLayer_inj :
    e.fold Context.reprLayer = d.fold Context.reprLayer ↔ e = d := by
  refine ⟨fun same => ?_, fun same => same ▸ rfl⟩
  have chars : e.prefixChars ++ [] = d.prefixChars ++ [] := by
    rw [prefixChars, same, prefixChars]
  exact (prefixChars_append_inj .nil .nil chars).1

end Expr

end ExprGraph
