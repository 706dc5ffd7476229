import ExprGraph.Ieee.Format
import ExprGraph.Tree.Basic
import Mathlib.Data.Fin.Tuple.Basic

set_option autoImplicit false

namespace ExprGraph

inductive Scalar where
  | bool (value : Bool)
  | int32 (value : Int32)
  | int64 (value : Int64)
  -- In single precision: a sign, and the bits of the magnitude.
  | float32 (negative : Bool) (bits : Nat)
  | float64 (value : Float)
  | number (value : Number)

def Scalar.toNumber : Scalar → Number
  | .bool b => .bool b
  | .int32 i => .ofInt32 i
  | .int64 i => .int i
  | .float32 negative bits => .float (Ieee.widen negative bits)
  | .float64 x => .float x
  | .number v => v

inductive Argument (n : Nat) where
  | handle (i : Fin n)
  | scalar (value : Scalar)

def Argument.operand {α : Type} {n : Nat} (handles : Fin n → α) : Argument n → Operand α
  | .handle i => .built (handles i)
  | .scalar v => .number v.toNumber

-- An operator stands for all its spellings: between handles, with a plain value on either side, and
-- powers as a method or a function. Plain values on both sides are allowed for every operator,
-- though only powers can be spelled so.
inductive Program : Nat → Type where
  | start : Program 0
  | number {n : Nat} (before : Program n) (value : Scalar) : Program (n + 1)
  | symbol {n : Nat} (before : Program n) (name : String) : Program (n + 1)
  | binary {n : Nat} (before : Program n) (code : Opcode) (lhs rhs : Argument n) : Program (n + 1)
  -- A second handle of what a handle is bound to.
  | clone {n : Nat} (before : Program n) (handle : Fin n) : Program (n + 1)
  -- An operator over what the handle is bound to, to which it is bound from then on.
  | assign {n : Nat} (before : Program n) (handle : Fin n) (code : Opcode) (rhs : Argument n) :
    Program n

structure Layer (m : Type → Type) (α : Type) where
  number : Number → m α
  symbol : String → m α
  binary : Opcode → Operand α → Operand α → m α

def Layer.trees : Layer Fresh Tree := ⟨Fresh.number, Fresh.symbol, Fresh.binary⟩

def Layer.nodes : Layer Build Node := ⟨Build.number, Build.symbol, Build.binary⟩

-- What the handles are bound to, and what each step has made, also what no handle has kept.
structure Made (α : Type) (n : Nat) where
  handle : Fin n → α
  results : List α

namespace Made

variable {α : Type} {n : Nat}

def start : Made α 0 := ⟨Fin.elim0, []⟩

def bind (made : Made α n) (a : α) : Made α (n + 1) :=
  ⟨Fin.snoc made.handle a, made.results ++ [a]⟩

def share (made : Made α n) (i : Fin n) : Made α (n + 1) :=
  ⟨Fin.snoc made.handle (made.handle i), made.results⟩

def rebind (made : Made α n) (i : Fin n) (a : α) : Made α n :=
  ⟨Function.update made.handle i a, made.results ++ [a]⟩

end Made

namespace Program

variable {n : Nat}

def run {m : Type → Type} [Monad m] {α : Type} (layer : Layer m α) :
    {n : Nat} → Program n → m (Made α n)
  | _, .start => pure .start
  | _, .number before v => do
    let made ← before.run layer
    return made.bind (← layer.number v.toNumber)
  | _, .symbol before name => do
    let made ← before.run layer
    return made.bind (← layer.symbol name)
  | _, .binary before code lhs rhs => do
    let made ← before.run layer
    return made.bind (← layer.binary code (lhs.operand made.handle) (rhs.operand made.handle))
  | _, .clone before handle => do
    let made ← before.run layer
    return made.share handle
  | _, .assign before handle code rhs => do
    let made ← before.run layer
    return made.rebind handle
      (← layer.binary code (.built (made.handle handle)) (rhs.operand made.handle))

def trees (program : Program n) (first : Nat) : Made Tree n := (program.run .trees first).1

def nodes (program : Program n) : Except Error (Made Node n) × Context :=
  Build.run (program.run .nodes) .empty

end Program

end ExprGraph
