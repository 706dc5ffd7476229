import ExprGraph.Context.Checked
import ExprGraph.Proofs.Traversal.Sweep

set_option autoImplicit false

namespace ExprGraph.Checked

variable {σ ε R : Type} {context : Context} {root : Node}

theorem write_eq {α : Type} {table : Array α} {node : Node} (inside : node.index < table.size)
    (value : α) : write table node value = some (table.setIfInBounds node.index value) :=
  if_pos inside

theorem read_results {t : Traversal R} {node : Node} (inside : node.index < t.results.size) :
    read t.results node = some (t.result? node) := by
  simp [read, Traversal.result?, inside]

theorem addUse_eq {uses : Array Nat} {operand : Node} (inside : operand.index < uses.size) :
    addUse uses operand = some (uses.modify operand.index (· + 1)) := by
  have count : read uses operand = some uses[operand.index] := Array.getElem?_eq_getElem inside
  rw [addUse, count]
  refine (write_eq inside _).trans (congrArg some ?_)
  refine Array.ext_getElem? fun i => ?_
  rw [Array.getElem?_setIfInBounds, Array.getElem?_modify]
  by_cases same : operand.index = i
  · subst same
    simp [inside]
  · simp [same]

theorem addUses_eq {operands : List Node} {uses : Array Nat}
    (inside : ∀ operand ∈ operands, operand.index < uses.size) :
    operands.foldlM addUse uses = some (Context.addUses uses operands) := by
  induction operands generalizing uses with
  | nil => rfl
  | cons operand rest ih =>
    have later : ∀ n ∈ rest, n.index < (uses.modify operand.index (· + 1)).size := by
      intro n member
      rw [Array.size_modify]
      exact inside n (List.mem_cons_of_mem _ member)
    rw [List.foldlM_cons, addUse_eq (inside operand List.mem_cons_self)]
    exact ih later

theorem countUsesFrom_eq (ordered : context.Ordered) (contained : context.Contains root)
    {marked todo : List Node} {seen : Array Bool} {uses : Array Nat}
    (counted : context.Counted root marked todo seen uses) :
    countUsesFrom context seen uses todo = some (context.countUsesFrom seen uses todo) := by
  fun_induction Context.countUsesFrom context seen uses todo generalizing marked with
  | case1 => rw [countUsesFrom]
  | case2 seen uses top rest inside met ih =>
    have next := counted.skip ((counted.seen_iff top).mp (by simp [inside, met]))
    rw [countUsesFrom, dif_pos inside, if_pos met, ih next]
  | case3 seen uses top rest inside unmet operands =>
    rename_i ih
    have new : top ∉ marked := fun member =>
      unmet (by simpa [inside] using (counted.seen_iff top).mpr member)
    obtain ⟨op, found⟩ := Context.contains_iff_op?.mp
      (ordered.contains_below (counted.below top (by simp)) contained)
    have operands_eq : operands = op.operands := Context.operandsOf_eq found
    have inUses : ∀ operand ∈ operands, operand.index < uses.size := by
      intro operand used
      rw [counted.uses_size]
      exact ordered.contains_operand used
    rw [countUsesFrom, dif_pos inside, if_neg unmet, found]
    simp only [← operands_eq, addUses_eq inUses]
    exact ih (counted.mark inside new)
  | case4 seen uses top rest outside ih =>
    have below := ordered.contains_below (counted.below top (by simp)) contained
    exact absurd (counted.seen_size ▸ below) outside

theorem countUses_eq (ordered : context.Ordered) (contained : context.Contains root) :
    countUses context root = some (context.countUses root) :=
  countUsesFrom_eq ordered contained (Context.counted_start root)

theorem release_eq {t : Traversal R} {operand : Node} (inUses : operand.index < t.uses.size)
    (inResults : operand.index < t.results.size) (left : 0 < t.usesOf operand) :
    release t operand = some (t.release operand) := by
  have count : read t.uses operand = some (t.usesOf operand) := by
    simp [read, Traversal.usesOf, inUses]
  have some_left : t.usesOf operand ≠ 0 := Nat.ne_of_gt left
  have unchecked : t.release operand =
      { t with
        uses := t.uses.setIfInBounds operand.index (t.usesOf operand - 1)
        results := if t.usesOf operand - 1 = 0 then t.results.setIfInBounds operand.index none
          else t.results } := rfl
  rw [release, count, unchecked]
  by_cases last : t.usesOf operand - 1 = 0
  · simp [some_left, last, write_eq inUses, write_eq inResults]
  · simp [some_left, last, write_eq inUses]

theorem releases_eq {operands : List Node} {t : Traversal R}
    (inUses : ∀ operand ∈ operands, operand.index < t.uses.size)
    (inResults : ∀ operand ∈ operands, operand.index < t.results.size)
    (left : ∀ operand, operands.count operand ≤ t.usesOf operand) :
    operands.foldlM release t = some (operands.foldl Traversal.release t) := by
  induction operands generalizing t with
  | nil => rfl
  | cons operand rest ih =>
    obtain ⟨results, uses⟩ := Traversal.releases_size [operand] t
    simp only [List.foldl_cons, List.foldl_nil] at results uses
    have some_left : 0 < t.usesOf operand :=
      Nat.lt_of_lt_of_le (by simp) (left operand)
    rw [List.foldlM_cons, release_eq (inUses operand List.mem_cons_self)
      (inResults operand List.mem_cons_self) some_left]
    refine ih ?_ ?_ ?_
    · exact fun n member => uses ▸ inUses n (List.mem_cons_of_mem _ member)
    · exact fun n member => results ▸ inResults n (List.mem_cons_of_mem _ member)
    · intro n
      have before := left n
      rw [← List.singleton_append, List.count_append] at before
      rw [Traversal.release_usesOf]
      omega

def Matches (context : Context) (checked : Visitor σ ε R) (visit : ExprGraph.Visitor σ ε R) :
    Prop :=
  ∀ known node op results s, context.op? node = some op → op.collect known = some results →
    checked node op results s = some (visit node op results s)

theorem matches_some (context : Context) (visit : ExprGraph.Visitor σ ε R) :
    Matches context (fun node op results s => some (visit node op results s)) visit :=
  fun _ _ _ _ _ _ _ => rfl

theorem slots_eq {t : Traversal R} {op : Op Node}
    (inResults : ∀ operand ∈ op.operands, operand.index < t.results.size) :
    op.collect (read t.results) = some (op.map t.result?) := by
  rw [← Op.collect_some]
  exact Op.collect_congr fun operand used => read_results (inResults operand used)

theorem store_eq {t : Traversal R} {node : Node} {op : Op Node}
    (inResults : ∀ n, n = node ∨ n ∈ op.operands → n.index < t.results.size)
    (inUses : ∀ operand ∈ op.operands, operand.index < t.uses.size)
    (left : ∀ operand, op.operands.count operand ≤ t.usesOf operand) (value : R) :
    (do
      let results ← write t.results node (some value)
      op.operands.foldlM release { t with results }) = some (t.store .needed node op value) := by
  rw [write_eq (inResults node (Or.inl rfl))]
  refine releases_eq inUses ?_ left
  intro operand used
  simpa using inResults operand (Or.inr used)

-- A node that has no result yet has its visit ahead, and the uses of its operands with it.
theorem count_le_usesOf (ordered : context.Ordered) (contained : context.Contains root)
    {p : Traversal.Progress R} {t : Traversal R} {node : Node} {rest : List Node}
    (u : Traversal.Underway .needed context root p t) (top : t.todo = node :: rest)
    (new : t.result? node = none) (operand : Node) :
    (context.operandsOf node).count operand ≤ t.usesOf operand := by
  have unvisited : node ∉ p.visited := by
    rw [← u.known, ← u.result?_top ordered contained top, new]
    simp
  by_cases used : operand ∈ context.operandsOf node
  · rw [u.tables.uses rfl operand (ordered.contains_operand used)]
    exact Context.count_le_demand (u.mem_remaining ordered contained top unvisited) operand
  · rw [List.count_eq_zero_of_not_mem used]
    exact Nat.zero_le _

theorem step_eq_of_fits [ReportsError ε] {checked : Visitor σ ε R}
    {visit : ExprGraph.Visitor σ ε R} (same : Matches context checked visit) {t : Traversal R}
    {node : Node} {op : Op Node} (found : context.op? node = some op)
    (inResults : ∀ n, n = node ∨ n ∈ op.operands → n.index < t.results.size)
    (inUses : ∀ operand ∈ op.operands, operand.index < t.uses.size)
    (left : t.result? node = none → ∀ operand, op.operands.count operand ≤ t.usesOf operand)
    (s : σ) :
    step context checked node t s = some (Traversal.step .needed context visit node t s) := by
  have slot := read_results (inResults node (Or.inl rfl))
  have slots := slots_eq fun operand used => inResults operand (Or.inr used)
  by_cases old : (t.result? node).isSome
  · rw [Traversal.step_of_result visit old]
    simp [step, slot, old]
  have new : t.result? node = none := by simpa using old
  cases collected : op.collect t.result? with
  | none =>
    rw [Traversal.step_of_pending visit new found collected]
    simp [step, slot, new, found, slots, collected]
  | some results =>
    rw [Traversal.step_of_results visit new found collected]
    have stored := store_eq inResults inUses (left new)
    have visited := same _ node op results s found collected
    simp only [step, slot, new, found, slots, visited, Option.bind_eq_bind, Option.bind_some,
      Op.collect_map, Function.id_comp, collected, Option.isSome_none, Bool.false_eq_true, if_false]
    rcases visit node op results s with ⟨e | value, s'⟩
    · rfl
    · simp only [Option.bind_eq_bind] at stored
      simp only [← Option.bind_assoc, stored]
      rfl

theorem step_eq [ReportsError ε] (ordered : context.Ordered) (contained : context.Contains root)
    {checked : Visitor σ ε R} {visit : ExprGraph.Visitor σ ε R}
    (same : Matches context checked visit) {p : Traversal.Progress R} {t : Traversal R}
    {node : Node} {rest : List Node} (u : Traversal.Underway .needed context root p t)
    (top : t.todo = node :: rest) (s : σ) :
    step context checked node { t with todo := rest } s =
      some (Traversal.step .needed context visit node { t with todo := rest } s) := by
  have inside := u.contains_top ordered contained top
  obtain ⟨op, found⟩ := Context.contains_iff_op?.mp inside
  have operands_eq : context.operandsOf node = op.operands := Context.operandsOf_eq found
  have tables := u.tables.with_todo rest
  have left := count_le_usesOf ordered contained u top
  rw [operands_eq] at left
  apply step_eq_of_fits same found
  · intro n h
    rw [tables.results_size]
    rcases h with rfl | used
    · exact inside
    · exact ordered.contains_operand (operands_eq ▸ used)
  · intro operand used
    rw [tables.uses_size]
    exact ordered.contains_operand (operands_eq ▸ used)
  · exact left

theorem run_eq [ReportsError ε] (ordered : context.Ordered) (contained : context.Contains root)
    {checked : Visitor σ ε R} {visit : ExprGraph.Visitor σ ε R}
    (same : Matches context checked visit) (steps : Nat) {p : Traversal.Progress R}
    {t : Traversal R} (u : Traversal.Underway .needed context root p t) (s : σ) :
    run context checked steps t s = some (Traversal.run .needed context visit steps t s) := by
  induction steps generalizing p t s with
  | zero => rfl
  | succ steps ih =>
    rw [run, Traversal.run]
    cases top : t.todo with
    | nil => rfl
    | cons node rest =>
      simp only [step_eq ordered contained same u top s]
      cases u.move ordered contained visit top with
      | skip old step_eq next fewer =>
        simp only [step_eq]
        exact ih next s
      | visit new op results found collected first step_eq next fewer =>
        simp only [step_eq]
        rcases visit node op results s with ⟨e | value, s'⟩
        · rfl
        · exact ih (next value) s'
      | wait new pending step_eq next fewer =>
        simp only [step_eq]
        exact ih next s

theorem traverse_eq [ReportsError ε] (ordered : context.Ordered) {checked : Visitor σ ε R}
    {visit : ExprGraph.Visitor σ ε R} (same : Matches context checked visit) (root : Node) (s : σ) :
    traverse context checked root s = some (context.traverse visit root s) := by
  rw [traverse, Context.traverse, Context.traverseRetaining]
  by_cases contained : context.Contains root
  · have start : Traversal.Underway .needed context root
        (Traversal.Progress.start context root : Traversal.Progress R) (.start context root) :=
      .start ordered contained
    have ran := run_eq ordered contained same (Traversal.stepBound context) start s
    rw [if_pos contained, if_pos contained, countUses_eq ordered contained]
    simp only [Traversal.start] at ran
    simp only [Option.bind_eq_bind, Option.bind_some, ran]
    rcases outcome : Traversal.run .needed context visit (Traversal.stepBound context)
        (.start context root) s with ⟨e | t, s'⟩
    · simp only [Traversal.start] at outcome
      simp only [outcome]
      rfl
    · obtain ⟨p, u, _⟩ := start.run ordered contained (fun _ _ => True)
        (fun _ _ _ _ _ _ _ _ _ => trivial) _ trivial outcome
      have inResults : root.index < t.results.size := u.tables.results_size ▸ contained
      simp only [Traversal.start] at outcome
      simp only [outcome, Option.bind_some, read_results inResults]
      cases t.result? root <;> rfl
  · rw [if_neg contained, if_neg contained]

end ExprGraph.Checked
