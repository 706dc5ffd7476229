import ExprGraph.Proofs.Arena.Builders
import ExprGraph.Proofs.Traversal.Renumbering

set_option autoImplicit false

namespace ExprGraph

namespace Build

variable {context : Context} {code : Opcode} {lhs rhs : Operand Node}

theorem context_of_failed_check {α : Type} (checked : Except Error α) (terminal : α → Op Node)
    {e : Error} (failed : (run (do push (terminal (← checked))) context).1 = .error e) :
    (run (do push (terminal (← checked))) context).2 = context := by
  rw [run_checked] at failed ⊢
  cases checked with
  | error e => rfl
  | ok a => simp at failed

theorem context_of_failed_binary {e : Error}
    (failed : ((binary code lhs rhs).run context).1 = .error e) :
    (((binary code lhs rhs).run context).2 = context ∧ ¬ ∃ v, lhs = .number v) ∨
      ∃ v node, lhs = .number v ∧ rhs = .built node ∧
        ¬ (context.push (.number v)).2.Contains node ∧
        ((binary code lhs rhs).run context).2 = (context.push (.number v)).2 := by
  by_cases left : lhs.Missing context.size
  · obtain ⟨node, rfl, _⟩ := id left
    exact .inl ⟨by rw [run_binary_of_left left], by simp⟩
  by_cases right : rhs.Missing (context.size + lhs.added)
  · rw [run_binary_of_right left right]
    cases lhs with
    | built l => exact .inl ⟨rfl, by simp⟩
    | number v =>
      obtain ⟨node, rfl, past⟩ := right
      refine .inr ⟨v, node, rfl, rfl, ?_, rfl⟩
      rw [Context.Contains, Context.size_push]
      exact Nat.not_lt.mpr past
  · simp [run_binary_of_present left right] at failed

end Build

namespace Context

variable {context later : Context}

theorem Keeps.size_le (keeps : context.Keeps later) : context.size ≤ later.size := by
  by_contra smaller
  have inside : context.Contains ⟨later.size⟩ := Nat.not_le.mp smaller
  exact Nat.lt_irrefl _ (keeps.contains inside)

structure Unchanged (context later : Context) (node : Node) : Prop where
  op : later.op? node = context.op? node
  traverse : ∀ {σ ε R : Type} [ReportsError ε] (visit : Visitor σ ε R) (s : σ),
    later.traverse visit node s = context.traverse visit node s
  render : later.render node = context.render node
  repr : later.repr node = context.repr node
  precedence : later.precedence node = context.precedence node
  numberValue : later.numberValue node = context.numberValue node
  symbolName : later.symbolName node = context.symbolName node
  exported : ∀ next next', ∃ t u, (context.exportTree node next).1 = .ok t ∧
    (later.exportTree node next').1 = .ok u ∧ t.Isomorphic u

theorem Keeps.traverse_eq (keeps : context.Keeps later) (ordered : context.Ordered)
    (laterOrdered : later.Ordered) {node : Node} (contained : context.Contains node)
    {σ ε R : Type} [ReportsError ε] (visit : Visitor σ ε R) (s : σ) :
    later.traverse visit node s = context.traverse visit node s := by
  have renumbers := Renumbers.of_keeps keeps ordered contained
  have same := renumbers.traverse_eq ordered laterOrdered contained visit s
  rwa [id_eq, Visitor.renumbered_id] at same

theorem Keeps.exists_exports (keeps : context.Keeps later) (ordered : context.Ordered)
    (laterOrdered : later.Ordered) {node : Node} (contained : context.Contains node)
    (next next' : Nat) : ∃ t u, (context.exportTree node next).1 = .ok t ∧
      (later.exportTree node next').1 = .ok u ∧ t.Isomorphic u := by
  obtain ⟨t, exported, embeds, place, _⟩ := ordered.exists_export contained next
  obtain ⟨u, exportedLater, embedsLater, placeLater, _⟩ :=
    laterOrdered.exists_export (keeps.contains contained) next'
  have same := (embeds.mono keeps).isomorphic embedsLater (place.trans placeLater.symm)
  exact ⟨t, u, by rw [exported], by rw [exportedLater], same⟩

theorem Keeps.unchanged (keeps : context.Keeps later) (ordered : context.Ordered)
    (laterOrdered : later.Ordered) {node : Node} (contained : context.Contains node) :
    context.Unchanged later node := by
  obtain ⟨op, found⟩ := contains_iff_op?.mp contained
  have op_eq : later.op? node = context.op? node := (keeps node op found).trans found.symm
  have opOf_eq : later.opOf node = context.opOf node := by rw [opOf, opOf, op_eq]
  have fold_eq {R : Type} (layer : Op R → R) : later.fold node layer = context.fold node layer :=
    congrArg Prod.fst (keeps.traverse_eq ordered laterOrdered contained _ ())
  exact {
    op := op_eq
    traverse := keeps.traverse_eq ordered laterOrdered contained
    render := by rw [Context.render, Context.render, fold_eq]
    repr := fold_eq reprLayer
    precedence := by rw [Context.precedence, Context.precedence, opOf_eq]
    numberValue := by rw [Context.numberValue, Context.numberValue, opOf_eq]
    symbolName := by rw [Context.symbolName, Context.symbolName, opOf_eq]
    exported := keeps.exists_exports ordered laterOrdered contained }

structure FailsCleanly (context : Context) : Prop where
  tryNumber : ∀ v e, ((Build.tryNumber v).run context).1 = .error e →
    context.after (.tryNumber v) = context
  trySymbol : ∀ v e, ((Build.trySymbol v).run context).1 = .error e →
    context.after (.trySymbol v) = context
  binary : ∀ code lhs rhs e, ((Build.binary code lhs rhs).run context).1 = .error e →
    (context.after (.binary code lhs rhs) = context ∧ ¬ ∃ v, lhs = .number v) ∨
      ∃ v node, lhs = .number v ∧ rhs = .built node ∧
        ¬ (context.push (.number v)).2.Contains node ∧
        context.after (.binary code lhs rhs) = (context.push (.number v)).2

theorem failsCleanly (context : Context) : context.FailsCleanly where
  tryNumber v _ failed := Build.context_of_failed_check v.asNumber .number failed
  trySymbol v _ failed := Build.context_of_failed_check v.asSymbol .symbol failed
  binary _ _ _ _ failed := Build.context_of_failed_binary failed

theorem growth_is_invisible (reachable : context.Reachable) (calls : List Call)
    (kept : ∀ call ∈ calls, call ≠ .clear) :
    context.size ≤ (context.afterAll calls).size ∧
    (∀ node, context.Contains node → context.Unchanged (context.afterAll calls) node) ∧
    (context.afterAll calls).FailsCleanly := by
  have keeps : context.Keeps (context.afterAll calls) := keeps_afterAll calls kept
  have ordered := reachable.ordered
  have laterOrdered := (reachable.afterAll calls).ordered
  exact ⟨keeps.size_le, fun _ => keeps.unchanged ordered laterOrdered, failsCleanly _⟩

def mixedCalls : List Call :=
  [.binary .add (.number (.int 7)) (.built ⟨9⟩), .trySymbol (.int 1), .importTree (.symbol 0 "z"),
    .binary .mul (.built ⟨5⟩) (.built ⟨4⟩)]

theorem unchanged_shared :
    shared.Reachable ∧ (∀ call ∈ mixedCalls, call ≠ .clear) ∧ shared.Contains ⟨4⟩ ∧
      shared.Unchanged (shared.afterAll mixedCalls) ⟨4⟩ ∧
      shared.after (.binary .add (.number (.int 7)) (.built ⟨9⟩)) =
        ⟨shared.ops.push (.number (.int 7))⟩ := by
  have kept : ∀ call ∈ mixedCalls, call ≠ .clear := by simp [mixedCalls]
  have contained : shared.Contains ⟨4⟩ := by decide
  obtain ⟨_, unchanged, _⟩ := growth_is_invisible reachable_shared mixedCalls kept
  exact ⟨reachable_shared, kept, contained, unchanged ⟨4⟩ contained, rfl⟩

end Context

end ExprGraph
