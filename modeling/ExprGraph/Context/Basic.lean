import ExprGraph.Error
import ExprGraph.Literal
import ExprGraph.Op

set_option autoImplicit false

namespace ExprGraph

structure Node where
  index : Nat
deriving DecidableEq, Ord, Hashable, Repr, Inhabited

@[simp] theorem Node.index_inj {a b : Node} : a.index = b.index ↔ a = b := by
  cases a
  cases b
  simp

structure Context where
  ops : Array (Op Node)
deriving Inhabited

namespace Context

def empty : Context := ⟨#[]⟩

variable (context : Context)

def size : Nat := context.ops.size

@[simp] theorem size_empty : empty.size = 0 := rfl

def op? (node : Node) : Option (Op Node) := context.ops[node.index]?

def Contains (node : Node) : Prop := node.index < context.size

instance (node : Node) : Decidable (context.Contains node) :=
  inferInstanceAs (Decidable (_ < _))

theorem op?_eq_none_iff (node : Node) : context.op? node = none ↔ ¬ context.Contains node := by
  simp [op?, Contains, size]

def nodes : List Node := (List.range context.size).map Node.mk

@[simp] theorem mem_nodes (node : Node) : node ∈ context.nodes ↔ context.Contains node := by
  simp only [nodes, Contains, List.mem_map, List.mem_range]
  constructor
  · rintro ⟨i, h, rfl⟩
    exact h
  · intro h
    exact ⟨node.index, h, rfl⟩

def Ordered : Prop :=
  ∀ (i : Nat) (op : Op Node), context.ops[i]? = some op → ∀ operand ∈ op.operands, operand.index < i

def opOf (node : Node) : Except Error (Op Node) :=
  match context.op? node with
  | some op => .ok op
  | none => .error .badNode

def precedence (node : Node) : Except Error Nat := Op.precedence <$> context.opOf node

def numberValue (node : Node) : Except Error (Option Number) :=
  (fun | .number v => some v | _ => none) <$> context.opOf node

def symbolName (node : Node) : Except Error (Option String) :=
  (fun | .symbol s => some s | _ => none) <$> context.opOf node

def push (op : Op Node) : Node × Context := (⟨context.size⟩, ⟨context.ops.push op⟩)

@[simp] theorem size_push (op : Op Node) : (context.push op).2.size = context.size + 1 := by
  simp [push, size]

@[simp] theorem op?_push_self (op : Op Node) :
    (context.push op).2.op? (context.push op).1 = some op := by
  simp [push, op?, size]

theorem op?_push_of_contains (op : Op Node) (node : Node) (h : context.Contains node) :
    (context.push op).2.op? node = context.op? node := by
  simp only [Contains, size] at h
  simp [push, op?, Array.getElem?_push, Nat.ne_of_lt h]

end Context

inductive Operand (α : Type) where
  | built (a : α)
  | number (value : Number)

abbrev Build := ExceptT Error (StateM Context)

namespace Build

def run {α : Type} (build : Build α) (context : Context) : Except Error α × Context :=
  StateT.run (ExceptT.run build) context

theorem run_bind {α β : Type} (build : Build α) (next : α → Build β) (context : Context) :
    (build >>= next).run context =
      match build.run context with
      | (.ok a, context) => (next a).run context
      | (.error error, context) => (.error error, context) := by
  simp only [run, ExceptT.run_bind, StateT.run_bind]
  generalize StateT.run (ExceptT.run build) context = outcome
  rcases outcome with ⟨outcome | outcome, context⟩ <;> rfl

def push (op : Op Node) : Build Node := modifyGetThe Context (·.push op)

@[simp] theorem run_push (op : Op Node) (context : Context) :
    (push op).run context = (.ok (context.push op).1, (context.push op).2) := rfl

def number (value : Number) : Build Node := push (.number value)

def symbol (name : String) : Build Node := push (.symbol name)

def tryNumber (value : Literal) : Build Node := do number (← value.asNumber)

def trySymbol (value : Literal) : Build Node := do symbol (← value.asSymbol)

def check (node : Node) : Build Node := fun context =>
  (if context.Contains node then .ok node else .error .badNode, context)

def operand : Operand Node → Build Node
  | .built node => check node
  | .number value => number value

@[simp] theorem run_operand_built (node : Node) (context : Context) :
    (operand (.built node)).run context =
      (if context.Contains node then .ok node else .error .badNode, context) := rfl

@[simp] theorem run_operand_number (value : Number) (context : Context) :
    (operand (.number value)).run context = (number value).run context := rfl

def binary (code : Opcode) (lhs rhs : Operand Node) : Build Node := do
  -- The left operand first, so its number is kept when the right one is a bad node.
  let lhs ← operand lhs
  let rhs ← operand rhs
  push (.binary code lhs rhs)

end Build

end ExprGraph
