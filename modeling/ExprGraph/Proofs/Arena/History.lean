import ExprGraph.Proofs.Arena.Builders

set_option autoImplicit false

namespace ExprGraph

namespace Build

variable {context : Context}

theorem ordered_checked {α : Type} (ordered : context.Ordered) (checked : Except Error α)
    {terminal : α → Op Node} (h : ∀ a, (terminal a).operands = []) :
    (run (do push (terminal (← checked))) context).2.Ordered := by
  rw [run_checked]
  cases checked with
  | error e => exact ordered
  | ok a => exact ordered.push (by simp [h])

end Build

namespace Context

theorem Ordered.after {context : Context} (ordered : context.Ordered) (call : Call) :
    (context.after call).Ordered := by
  cases call with
  | number v => exact ordered.push nofun
  | symbol s => exact ordered.push nofun
  | tryNumber v => exact Build.ordered_checked ordered v.asNumber fun _ => rfl
  | trySymbol v => exact Build.ordered_checked ordered v.asSymbol fun _ => rfl
  | binary code lhs rhs => exact Build.ordered_binary ordered code lhs rhs
  | importTree t => exact ordered.importTree t
  | clear => exact .empty

theorem Reachable.ordered {context : Context} (reachable : context.Reachable) :
    context.Ordered := by
  induction reachable with
  | empty => exact .empty
  | after call _ ih => exact ih.after call

end Context

namespace Build

variable {α β : Type}

def StaysReachable (build : Build α) : Prop :=
  ∀ context : Context, context.Reachable → (build.run context).2.Reachable

theorem StaysReachable.bind {build : Build α} {next : α → Build β} (first : build.StaysReachable)
    (second : ∀ a, (next a).StaysReachable) : (build >>= next).StaysReachable := by
  intro context reachable
  have next := first context reachable
  rw [run_bind]
  split
  case h_1 a later ran =>
    rw [ran] at next
    exact second a later next
  case h_2 e later ran =>
    rw [ran] at next
    exact next

theorem staysReachable_pure (a : α) : StaysReachable (pure a) := fun _ reachable => reachable

theorem staysReachable_symbol (name : String) : (symbol name).StaysReachable :=
  fun _ reachable => .after (.symbol name) reachable

theorem staysReachable_binary (code : Opcode) (lhs rhs : Operand Node) :
    (binary code lhs rhs).StaysReachable :=
  fun _ reachable => .after (.binary code lhs rhs) reachable

end Build

namespace Context

def shared : Context where
  ops := #[.symbol "x", .number (.int 1), .binary .add ⟨0⟩ ⟨1⟩, .binary .mul ⟨2⟩ ⟨2⟩,
    .binary .sub ⟨3⟩ ⟨0⟩]

theorem reachable_shared : shared.Reachable := by
  have sum : Reachable _ := .after (.binary .add (.built ⟨0⟩) (.number (.int 1)))
    (.after (.symbol "x") .empty)
  have square : Reachable _ := .after (.binary .mul (.built ⟨2⟩) (.built ⟨2⟩)) sum
  exact .after (.binary .sub (.built ⟨3⟩) (.built ⟨0⟩)) square

end Context

namespace Session

theorem reachable_after {session : Session} (reachable : ∀ i, (session i).Reachable) (index : Nat)
    (call : Call) (i : Nat) : (session.after index call i).Reachable := by
  rw [after]
  by_cases same : i = index
  · rw [if_pos same]
    exact .after call (reachable i)
  · rw [if_neg same]
    exact reachable i

theorem reachable_foldl (calls : List (Nat × Call)) {session : Session}
    (reachable : ∀ i, (session i).Reachable) (i : Nat) :
    (calls.foldl (fun session (index, call) => session.after index call) session i).Reachable := by
  induction calls generalizing session with
  | nil => exact reachable i
  | cons call rest ih => exact ih (reachable_after reachable call.1 call.2)

theorem reachable_run (calls : List (Nat × Call)) (i : Nat) : (run calls i).Reachable :=
  reachable_foldl calls (fun _ => .empty) i

end Session

end ExprGraph
