import ExprGraph.Proofs.Traversal.Stack
import ExprGraph.Proofs.Traversal.Tables

set_option autoImplicit false

namespace ExprGraph.Traversal

variable {σ ε R : Type}

structure Progress (R : Type) where
  visited : List Node
  remaining : List Node
  known : Node → Option R
  entries : List Entry

namespace Progress

def start (context : Context) (root : Node) : Progress R :=
  ⟨[], context.order root, fun _ => none, [.due root]⟩

def skip (p : Progress R) : Progress R := { p with entries := p.entries.tail }

def visit (p : Progress R) (node : Node) (value : R) : Progress R where
  visited := p.visited ++ [node]
  remaining := p.remaining.tail
  known := Function.update p.known node (some value)
  entries := p.entries.tail

def wait (p : Progress R) (node : Node) (pending : List Node) : Progress R :=
  { p with entries := pending.map .due ++ .waiting node :: p.entries.tail }

def stepsLeft (context : Context) (p : Progress R) : Nat :=
  Traversal.stepsLeft context p.visited p.entries

end Progress

structure Underway (retention : Retention) (context : Context) (root : Node) (p : Progress R)
    (t : Traversal R) : Prop where
  todo : t.todo = p.entries.map Entry.node
  whole : context.order root = p.visited ++ p.remaining
  order : context.orderAll p.visited t.todo = context.order root
  known : ∀ node, (p.known node).isSome ↔ node ∈ p.visited
  stack : Stack context root p.visited p.entries
  tables : Tables retention context root p.remaining p.known t

inductive Move [ReportsError ε] (retention : Retention) (context : Context)
    (visit : Visitor σ ε R) (root : Node) (p : Progress R) (t : Traversal R) (node : Node) :
    Prop where
  | skip (old : node ∈ p.visited)
      (step_eq : ∀ s, step retention context visit node t s = (.ok t, s))
      (next : Underway retention context root p.skip t)
      (fewer : p.skip.stepsLeft context < p.stepsLeft context)
  | visit (new : node ∉ p.visited) (op : Op Node) (results : Op R)
      (found : context.op? node = some op) (collected : op.collect p.known = some results)
      (first : p.remaining = node :: p.remaining.tail)
      (step_eq : ∀ s, step retention context visit node t s =
        match visit node op results s with
        | (.ok value, s) => (.ok (t.store retention node op value), s)
        | (.error e, s) => (.error e, s))
      (next : ∀ value, Underway retention context root (p.visit node value)
        (t.store retention node op value))
      (fewer : ∀ value, (p.visit node value).stepsLeft context < p.stepsLeft context)
  | wait (new : node ∉ p.visited) (pending : List Node)
      (step_eq : ∀ s, step retention context visit node t s =
        (.ok { t with todo := pending ++ node :: t.todo }, s))
      (next : Underway retention context root (p.wait node pending)
        { t with todo := pending ++ node :: t.todo })
      (fewer : (p.wait node pending).stepsLeft context < p.stepsLeft context)
      (missing : ∃ operand ∈ context.operandsOf node, operand ∉ p.visited)

variable {retention : Retention} {context : Context} {root : Node}

theorem Underway.start (ordered : context.Ordered) (contained : context.Contains root) :
    Underway retention context root (Progress.start context root : Progress R)
      (.start context root) where
  todo := rfl
  whole := rfl
  order := rfl
  known := by simp [Progress.start]
  stack := Stack.start
  tables := Tables.start ordered contained

theorem Underway.contains {p : Progress R} {t : Traversal R}
    (u : Underway retention context root p t) (ordered : context.Ordered)
    (contained : context.Contains root) {entry : Entry} (member : entry ∈ p.entries) :
    context.Contains entry.node := by
  rcases u.stack.wanted.of_mem member with same | ⟨user, _, used⟩
  · rwa [same]
  · exact ordered.contains_operand used

theorem Underway.mem_order {p : Progress R} {t : Traversal R}
    (u : Underway retention context root p t) (ordered : context.Ordered)
    (contained : context.Contains root) {entry : Entry} (member : entry ∈ p.entries) :
    entry.node ∈ context.order root := by
  rw [← u.order, u.todo]
  refine Context.mem_orderAll_self ordered ?_ _ (List.mem_map_of_mem member)
  intro node fromEntry
  obtain ⟨e, inside, rfl⟩ := List.mem_map.mp fromEntry
  exact u.contains ordered contained inside

theorem Underway.remains {p : Progress R} {t : Traversal R}
    (u : Underway retention context root p t) {node : Node} (member : node ∈ context.order root)
    (new : node ∉ p.visited) : node ∈ p.remaining := by
  rw [u.whole] at member
  exact (List.mem_append.mp member).resolve_left new

-- A waiting node has its visit ahead of it.
theorem Underway.waiting_remains {p : Progress R} {t : Traversal R}
    (u : Underway retention context root p t) (ordered : context.Ordered)
    (contained : context.Contains root) {user : Node} (waits : .waiting user ∈ p.entries) :
    user ∈ p.remaining :=
  u.remains (u.mem_order ordered contained waits) (u.stack.unvisited user waits)

theorem Underway.kept {p : Progress R} {t : Traversal R}
    (u : Underway retention context root p t) (ordered : context.Ordered)
    (contained : context.Contains root) {entry : Entry} (member : entry ∈ p.entries) :
    Kept retention context root p.remaining entry.node := by
  rcases u.stack.wanted.of_mem member with same | ⟨user, waits, used⟩
  · exact Or.inr (Or.inl same)
  · exact kept_of_use retention (u.waiting_remains ordered contained waits) used

theorem Underway.root_not_operand {p : Progress R} {t : Traversal R}
    (u : Underway retention context root p t) (ordered : context.Ordered)
    (contained : context.Contains root) {entry : Entry} (member : entry ∈ p.entries) :
    root ∉ context.operandsOf entry.node := by
  intro used
  have reaches : context.Reaches root entry.node :=
    (Context.mem_order_iff ordered contained _).mp (u.mem_order ordered contained member)
  exact ordered.acyclic root ((Context.depends_operand used).of_reaches reaches)

section Step

variable [ReportsError ε] (visit : Visitor σ ε R) {t : Traversal R} {node : Node} {op : Op Node}

theorem step_of_result (h : (t.result? node).isSome) (s : σ) :
    step retention context visit node t s = (.ok t, s) := by
  rw [step, if_pos h]

theorem step_of_results {results : Op R} (h : t.result? node = none)
    (found : context.op? node = some op) (collected : op.collect t.result? = some results) (s : σ) :
    step retention context visit node t s =
      match visit node op results s with
      | (.ok value, s) => (.ok (t.store retention node op value), s)
      | (.error e, s) => (.error e, s) := by
  rcases outcome : visit node op results s with ⟨e | value, s'⟩ <;>
    simp only [step, h, Option.isSome_none, Bool.false_eq_true, if_false, found, collected, outcome]

theorem step_of_pending (h : t.result? node = none) (found : context.op? node = some op)
    (missing : op.collect t.result? = none) (s : σ) :
    step retention context visit node t s =
      (.ok { t with todo := (op.operands.filter fun operand => (t.result? operand).isNone) ++
        node :: t.todo }, s) := by
  simp only [step, h, Option.isSome_none, Bool.false_eq_true, if_false, found, missing]

end Step

theorem Underway.next_skip {p : Progress R} {t : Traversal R} {node : Node} {rest : List Node}
    (u : Underway retention context root p t) (ordered : context.Ordered)
    (top : t.todo = node :: rest) (old : node ∈ p.visited) :
    Underway retention context root p.skip { t with todo := rest } ∧
      p.skip.stepsLeft context < p.stepsLeft context := by
  obtain ⟨visited, remaining, known, entries⟩ := p
  obtain ⟨todo, whole, order, known_iff, stack, tables⟩ := u
  obtain ⟨entry, under, rfl, rfl, rfl⟩ := List.map_eq_cons_iff.mp (todo.symm.trans top)
  have same (n : Node) : n ∈ visited ↔ n ∈ visited ∨ n = entry.node :=
    ⟨Or.inl, fun h => h.elim id fun e => e ▸ old⟩
  refine ⟨⟨rfl, whole, ?_, known_iff, stack.pop ordered same, tables.with_todo _⟩,
    stepsLeft_pop same⟩
  rw [← order, top, Context.orderAll_cons, Context.orderFrom_of_mem old]
  rfl

theorem Underway.remaining_eq {p : Progress R} {t : Traversal R} {node : Node} {rest : List Node}
    (u : Underway retention context root p t) (ordered : context.Ordered)
    (contained : context.Contains node) (top : t.todo = node :: rest) (new : node ∉ p.visited)
    (operands : context.operandsOf node ⊆ p.visited) :
    p.remaining = node :: p.remaining.tail ∧
      context.orderAll (p.visited ++ [node]) rest = context.order root := by
  have visited : context.orderAll p.visited (context.operandsOf node) = p.visited :=
    Context.orderAll_of_subset operands
  have order := u.order
  rw [top, Context.orderAll_cons, ordered.orderFrom_eq contained new, visited] at order
  refine ⟨?_, order⟩
  have first : p.visited ++ [node] <+: p.visited ++ p.remaining := by
    rw [← u.whole, ← order]
    exact Context.prefix_orderAll _ _
  obtain ⟨later, split⟩ := (List.prefix_append_right_inj p.visited).mp first
  rw [← split]
  rfl

theorem Underway.next_visit {p : Progress R} {t : Traversal R} {node : Node} {op : Op Node}
    {rest : List Node} (u : Underway retention context root p t) (ordered : context.Ordered)
    (contained : context.Contains root) (top : t.todo = node :: rest)
    (found : context.op? node = some op) (new : node ∉ p.visited)
    (operands : op.operands ⊆ p.visited) (value : R) :
    Underway retention context root (p.visit node value)
        (({ t with todo := rest } : Traversal R).store retention node op value) ∧
      (p.visit node value).stepsLeft context < p.stepsLeft context := by
  have inside : context.Contains node := Context.contains_iff_op?.mpr ⟨op, found⟩
  have operands_eq : context.operandsOf node = op.operands := Context.operandsOf_eq found
  obtain ⟨first, order⟩ := u.remaining_eq ordered inside top new (operands_eq ▸ operands)
  obtain ⟨visited, remaining, known, entries⟩ := p
  obtain ⟨entry, under, rfl, rfl, rfl⟩ := List.map_eq_cons_iff.mp (u.todo.symm.trans top)
  have member : entry ∈ entry :: under := List.mem_cons_self
  have same (n : Node) : n ∈ visited ++ [entry.node] ↔ n ∈ visited ∨ n = entry.node := by simp
  have stack : Stack context root (visited ++ [entry.node]) under := u.stack.pop ordered same
  have whole : context.order root = (visited ++ [entry.node]) ++ remaining.tail := by
    rw [u.whole, List.append_assoc]
    exact congrArg (visited ++ ·) first
  -- The node that wants the result waits further down, so it comes after this one.
  have kept : Kept retention context root remaining.tail entry.node := by
    rcases u.stack.wanted.1 with isRoot | ⟨user, waits, used⟩
    · exact Or.inr (Or.inl isRoot)
    · have later : user ∈ context.order root :=
        u.mem_order ordered contained (List.mem_cons_of_mem entry waits)
      rw [whole] at later
      have remains := (List.mem_append.mp later).resolve_left (stack.unvisited user waits)
      exact kept_of_use retention remains used
  have tables : Tables retention context root (entry.node :: remaining.tail) known
      { t with todo := under.map Entry.node } := by
    have before := u.tables.with_todo (under.map Entry.node)
    rwa [first] at before
  refine ⟨⟨?_, whole, ?_, ?_, stack, tables.store ordered found kept ?_ value⟩, ?_⟩
  · rw [store_todo]
    rfl
  · rw [store_todo]
    exact order
  · intro n
    by_cases same : n = entry.node
    · simp [Progress.visit, same]
    · simpa [Progress.visit, same] using u.known n
  · exact operands_eq ▸ u.root_not_operand ordered contained member
  · exact stepsLeft_pop same

theorem Underway.next_wait {p : Progress R} {t : Traversal R} {node : Node} {op : Op Node}
    {rest pending : List Node} (u : Underway retention context root p t)
    (ordered : context.Ordered) (top : t.todo = node :: rest)
    (found : context.op? node = some op) (new : node ∉ p.visited)
    (missing : ∃ operand ∈ op.operands, operand ∉ p.visited)
    (pending_eq : pending = op.operands.filter (· ∉ p.visited)) :
    Underway retention context root (p.wait node pending)
        { t with todo := pending ++ node :: rest } ∧
      (p.wait node pending).stepsLeft context < p.stepsLeft context := by
  have inside : context.Contains node := Context.contains_iff_op?.mpr ⟨op, found⟩
  have operands_eq : context.operandsOf node = op.operands := Context.operandsOf_eq found
  obtain ⟨visited, remaining, known, entries⟩ := p
  obtain ⟨todo, whole, order, known_iff, stack, tables⟩ := u
  obtain ⟨entry, under, rfl, rfl, rfl⟩ := List.map_eq_cons_iff.mp (todo.symm.trans top)
  -- An entry that waits comes up with its operands visited.
  obtain ⟨node, rfl⟩ : ∃ node, entry = .due node := by
    cases entry with
    | due node => exact ⟨node, rfl⟩
    | waiting node =>
      obtain ⟨operand, used, unvisited⟩ := missing
      exact absurd (stack.operands_visited (operands_eq ▸ used)) unvisited
  have used : pending ⊆ context.operandsOf node := by
    rw [pending_eq, ← operands_eq]
    exact fun operand member => (List.mem_filter.mp member).1
  have split (operand : Node) (used : operand ∈ context.operandsOf node) :
      operand ∈ visited ∨ operand ∈ pending := by
    by_cases old : operand ∈ visited
    · exact Or.inl old
    · exact Or.inr (pending_eq ▸ List.mem_filter.mpr ⟨operands_eq ▸ used, by simpa using old⟩)
  refine ⟨⟨?_, whole, ?_, known_iff, stack.wait new used split, tables.with_todo _⟩, ?_⟩
  · simp [Progress.wait, Entry.node, Function.comp_def]
  · have all : context.orderAll visited pending = context.orderAll visited op.operands := by
      rw [pending_eq, Context.orderAll_filter _ (List.Subset.refl visited)]
    rw [top, ← ordered.orderAll_operands_cons inside new, operands_eq] at order
    rw [← order, Context.orderAll_append, Context.orderAll_append]
    exact congrArg (context.orderAll · _) all
  · refine stack.stepsLeft_wait ordered inside new ?_
    rw [pending_eq]
    exact Nat.le_trans (List.length_filter_le _ _) op.length_operands_le

theorem Underway.contains_top {p : Progress R} {t : Traversal R} {node : Node} {rest : List Node}
    (u : Underway retention context root p t) (ordered : context.Ordered)
    (contained : context.Contains root) (top : t.todo = node :: rest) : context.Contains node := by
  obtain ⟨entry, under, split, rfl, _⟩ := List.map_eq_cons_iff.mp (u.todo.symm.trans top)
  exact u.contains ordered contained (split ▸ List.mem_cons_self)

theorem Underway.mem_remaining {p : Progress R} {t : Traversal R} {node : Node} {rest : List Node}
    (u : Underway retention context root p t) (ordered : context.Ordered)
    (contained : context.Contains root) (top : t.todo = node :: rest) (new : node ∉ p.visited) :
    node ∈ p.remaining := by
  obtain ⟨entry, under, split, rfl, _⟩ := List.map_eq_cons_iff.mp (u.todo.symm.trans top)
  exact u.remains (u.mem_order ordered contained (split ▸ List.mem_cons_self)) new

-- The operands of a node that has not been visited can be read as if all results were kept.
theorem Underway.result?_operand {p : Progress R} {t : Traversal R} {node operand : Node}
    (u : Underway retention context root p t) (remains : node ∈ p.remaining)
    (used : operand ∈ context.operandsOf node) : t.result? operand = p.known operand := by
  rw [u.tables.results, if_pos (kept_of_use retention remains used)]

theorem Underway.result?_top {p : Progress R} {t : Traversal R} {node : Node} {rest : List Node}
    (u : Underway retention context root p t) (ordered : context.Ordered)
    (contained : context.Contains root) (top : t.todo = node :: rest) :
    t.result? node = p.known node := by
  obtain ⟨entry, under, split, rfl, _⟩ := List.map_eq_cons_iff.mp (u.todo.symm.trans top)
  rw [u.tables.results, if_pos (u.kept ordered contained (split ▸ List.mem_cons_self))]

theorem Underway.move [ReportsError ε] {p : Progress R} {t : Traversal R} {node : Node}
    {rest : List Node} (u : Underway retention context root p t) (ordered : context.Ordered)
    (contained : context.Contains root) (visit : Visitor σ ε R) (top : t.todo = node :: rest) :
    Move retention context visit root p { t with todo := rest } node := by
  have result := u.result?_top ordered contained top
  by_cases old : node ∈ p.visited
  · obtain ⟨next, fewer⟩ := u.next_skip ordered top old
    refine .skip old (step_of_result visit ?_) next fewer
    exact (congrArg Option.isSome result).trans ((u.known node).mpr old)
  have remains := u.mem_remaining ordered contained top old
  have unknown : t.result? node = none := by
    rw [result, ← Option.not_isSome_iff_eq_none, u.known]
    exact old
  have inside := u.contains_top ordered contained top
  obtain ⟨op, found⟩ := Context.contains_iff_op?.mp inside
  have operands_eq : context.operandsOf node = op.operands := Context.operandsOf_eq found
  have read (operand : Node) (used : operand ∈ op.operands) :
      t.result? operand = p.known operand :=
    u.result?_operand remains (operands_eq ▸ used)
  have collect_eq : op.collect t.result? = op.collect p.known := Op.collect_congr read
  have unknown_iff (operand : Node) : p.known operand = none ↔ operand ∉ p.visited := by
    rw [← Option.not_isSome_iff_eq_none, u.known]
  cases collected : op.collect p.known with
  | some results =>
    have operands : op.operands ⊆ p.visited := by
      intro operand used
      by_contra unvisited
      have missing := (op.collect_eq_none_iff p.known).mpr
        ⟨operand, used, (unknown_iff operand).mpr unvisited⟩
      simp [missing] at collected
    have next := u.next_visit ordered contained top found old operands
    exact .visit old op results found collected
      (u.remaining_eq ordered inside top old (operands_eq ▸ operands)).1
      (step_of_results visit unknown found (collect_eq.trans collected))
      (fun value => (next value).1) (fun value => (next value).2)
  | none =>
    have missing : ∃ operand ∈ op.operands, operand ∉ p.visited := by
      simpa only [unknown_iff] using (op.collect_eq_none_iff p.known).mp collected
    have pending_eq : op.operands.filter (fun operand => (t.result? operand).isNone) =
        op.operands.filter (· ∉ p.visited) := by
      refine List.filter_congr fun operand used => ?_
      rw [read operand used, Bool.eq_iff_iff, Option.isNone_iff_eq_none, unknown_iff]
      simp
    obtain ⟨next, fewer⟩ := u.next_wait ordered top found old missing pending_eq
    exact .wait old _ (step_of_pending visit unknown found (collect_eq.trans collected)) next fewer
      (operands_eq ▸ missing)

theorem Underway.run [ReportsError ε] (ordered : context.Ordered)
    (contained : context.Contains root) {visit : Visitor σ ε R} (holds : List Node → σ → Prop)
    (keeps : ∀ visited node op results s value s', holds visited s →
      visit node op results s = (.ok value, s') → holds (visited ++ [node]) s')
    (steps : Nat) {p : Progress R} {t later : Traversal R}
    (u : Underway retention context root p t) {s s' : σ} (before : holds p.visited s)
    (ran : Traversal.run retention context visit steps t s = (.ok later, s')) :
    ∃ p', Underway retention context root p' later ∧ holds p'.visited s' := by
  induction steps generalizing p t s with
  | zero =>
    obtain ⟨rfl, rfl⟩ : t = later ∧ s = s' := by simpa [Traversal.run] using ran
    exact ⟨p, u, before⟩
  | succ steps ih =>
    cases top : t.todo with
    | nil =>
      obtain ⟨rfl, rfl⟩ : t = later ∧ s = s' := by simpa [Traversal.run, top] using ran
      exact ⟨p, u, before⟩
    | cons node rest =>
      rw [Traversal.run, top] at ran
      cases u.move ordered contained visit top with
      | skip old step_eq next fewer =>
        simp only [step_eq] at ran
        exact ih next before ran
      | visit new op results found collected first step_eq next fewer =>
        simp only [step_eq] at ran
        rcases outcome : visit node op results s with ⟨e | value, s₁⟩
        · simp [outcome] at ran
        · simp only [outcome] at ran
          exact ih (next value) (keeps _ _ _ _ _ _ _ before outcome) ran
      | wait new pending step_eq next fewer =>
        simp only [step_eq] at ran
        exact ih next before ran

end ExprGraph.Traversal
