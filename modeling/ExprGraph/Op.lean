import ExprGraph.Number
import ExprGraph.Opcode

set_option autoImplicit false

namespace ExprGraph

inductive Op (α : Type) where
  | number (value : Number)
  | symbol (name : String)
  | binary (code : Opcode) (lhs rhs : α)
deriving DecidableEq, Hashable, BEq

namespace Op

variable {α β : Type}

def operands : Op α → List α
  | .number _ => []
  | .symbol _ => []
  | .binary _ lhs rhs => [lhs, rhs]

def isTerminal : Op α → Bool
  | .number _ => true
  | .symbol _ => true
  | .binary .. => false

def precedence : Op α → Nat
  | .number _ => terminalPrecedence
  | .symbol _ => terminalPrecedence
  | .binary code _ _ => code.precedence

def name : Op α → String
  | .number _ => "Number"
  | .symbol _ => "Symbol"
  | .binary code _ _ => code.name

def map (f : α → β) : Op α → Op β
  | .number v => .number v
  | .symbol s => .symbol s
  | .binary code lhs rhs => .binary code (f lhs) (f rhs)

def collect (f : α → Option β) : Op α → Option (Op β)
  | .number v => some (.number v)
  | .symbol s => some (.symbol s)
  | .binary code lhs rhs =>
    match f lhs, f rhs with
    | some left, some right => some (.binary code left right)
    | _, _ => none

@[simp] theorem operands_map (f : α → β) (op : Op α) :
    (op.map f).operands = op.operands.map f := by
  cases op <;> rfl

@[simp] theorem collect_some (f : α → β) (op : Op α) :
    op.collect (fun a => some (f a)) = some (op.map f) := by
  cases op <;> rfl

@[simp] theorem collect_map {γ : Type} (f : α → β) (g : β → Option γ) (op : Op α) :
    (op.map f).collect g = op.collect (g ∘ f) := by
  cases op <;> rfl

theorem collect_eq_none_iff (f : α → Option β) (op : Op α) :
    op.collect f = none ↔ ∃ a ∈ op.operands, f a = none := by
  cases op with
  | number | symbol => simp [collect, operands]
  | binary code lhs rhs =>
    cases hl : f lhs <;> cases hr : f rhs <;> simp [collect, operands, hl, hr]

theorem collect_congr {f g : α → Option β} {op : Op α} (h : ∀ a ∈ op.operands, f a = g a) :
    op.collect f = op.collect g := by
  cases op with
  | number | symbol => rfl
  | binary code lhs rhs =>
    have left : f lhs = g lhs := h lhs (by simp [operands])
    have right : f rhs = g rhs := h rhs (by simp [operands])
    simp [collect, left, right]

theorem map_congr {f g : α → β} {op : Op α} (h : ∀ a ∈ op.operands, f a = g a) :
    op.map f = op.map g := by
  cases op with
  | number | symbol => rfl
  | binary code lhs rhs =>
    have left : f lhs = g lhs := h lhs (by simp [operands])
    have right : f rhs = g rhs := h rhs (by simp [operands])
    rw [map, map, left, right]

@[simp] theorem map_map {γ : Type} (f : α → β) (g : β → γ) (op : Op α) :
    (op.map f).map g = op.map (g ∘ f) := by
  cases op <;> rfl

theorem map_eq_of_map_eq_map {γ : Type} {f : α → γ} {g : β → γ} {h : α → β} {a : Op α}
    {b : Op β} (same : a.map f = b.map g)
    (pairs : ∀ x ∈ a.operands, ∀ y ∈ b.operands, f x = g y → h x = y) : a.map h = b := by
  cases a with
  | number | symbol => cases b <;> simp_all [Op.map]
  | binary code lhs rhs =>
    cases b with
    | number | symbol => simp [Op.map] at same
    | binary code' lhs' rhs' =>
      obtain ⟨rfl, left, right⟩ : code = code' ∧ f lhs = g lhs' ∧ f rhs = g rhs' := by
        simpa [Op.map] using same
      have leftPair := pairs lhs (by simp [Op.operands]) lhs' (by simp [Op.operands]) left
      have rightPair := pairs rhs (by simp [Op.operands]) rhs' (by simp [Op.operands]) right
      rw [Op.map, leftPair, rightPair]

theorem collect_binary {f : α → Option β} {code : Opcode} {lhs rhs : α} {out : Op β}
    (collected : (Op.binary code lhs rhs).collect f = some out) :
    ∃ left right, f lhs = some left ∧ f rhs = some right ∧ out = .binary code left right := by
  cases left : f lhs with
  | none => simp [collect, left] at collected
  | some l =>
    cases right : f rhs with
    | none => simp [collect, left, right] at collected
    | some r =>
      simp only [collect, left, right, Option.some.injEq] at collected
      exact ⟨l, r, rfl, rfl, collected.symm⟩

theorem map_operands_of_collect {f : α → Option β} {op : Op α} {out : Op β}
    (collected : op.collect f = some out) : op.operands.map f = out.operands.map some := by
  cases op with
  | number v | symbol s =>
    obtain rfl := Option.some.inj collected
    rfl
  | binary code lhs rhs =>
    obtain ⟨l, r, left, right, rfl⟩ := collect_binary collected
    simp [operands, left, right]

theorem map_of_collect {f : α → Option β} {g : β → α} {op : Op α} {out : Op β}
    (collected : op.collect f = some out) (back : ∀ a ∈ op.operands, ∀ b, f a = some b → g b = a) :
    out.map g = op := by
  cases op with
  | number v | symbol s =>
    obtain rfl := Option.some.inj collected
    rfl
  | binary code lhs rhs =>
    obtain ⟨l, r, left, right, rfl⟩ := collect_binary collected
    rw [map, back lhs (by simp [operands]) l left, back rhs (by simp [operands]) r right]

theorem length_operands_le (op : Op α) : op.operands.length ≤ 2 := by
  cases op <;> simp [operands]

end Op

end ExprGraph
