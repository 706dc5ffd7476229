import ExprGraph.Proofs.Graph.Edges
import ExprGraph.Proofs.Traversal.Visits

set_option autoImplicit false

namespace ExprGraph.Traversal

variable {σ ε R : Type}

def Released (t : Traversal R) (visited : List Node) (node : Node) : Prop :=
  node ∈ visited ∧ t.result? node = none

structure Careful (context : Context) (root : Node) (visited : List Node) (t : Traversal R) :
    Prop where
  root_stays : ¬ Released t visited root
  off_stack : ∀ node, Released t visited node → node ∉ t.todo
  users_visited : ∀ node, Released t visited node → ∀ user, context.Reaches root user →
    node ∈ context.operandsOf user → user ∈ visited
  uses_left : ∀ user, context.Reaches root user → user ∉ visited → ∀ operand,
    (context.operandsOf user).count operand ≤ t.usesOf operand

structure Unmissed (context : Context) (visited : List Node) (t later : Traversal R)
    (between : List Node) : Prop where
  stays : ∀ node, Released t visited node → later.result? node = none
  off_stack : ∀ node, Released t visited node → node ∉ later.todo
  not_visited : ∀ node, Released t visited node → node ∉ between
  not_read : ∀ node, Released t visited node → ∀ user ∈ between, node ∉ context.operandsOf user

variable {context : Context} {root : Node}

theorem Underway.released_iff {p : Progress R} {t : Traversal R}
    (u : Underway .needed context root p t) (node : Node) :
    Released t p.visited node ↔
      node ∈ p.visited ∧ ¬ Kept .needed context root p.remaining node := by
  refine and_congr_right fun visited => ?_
  have known := (u.known node).mpr visited
  rw [u.tables.results]
  by_cases kept : Kept .needed context root p.remaining node
  · simp [kept, Option.ne_none_iff_isSome.mpr known]
  · simp [kept]

theorem Underway.off_stack {p : Progress R} {t : Traversal R}
    (u : Underway .needed context root p t) (ordered : context.Ordered)
    (contained : context.Contains root) {node : Node} (released : Released t p.visited node) :
    node ∉ t.todo := by
  intro member
  rw [u.todo] at member
  obtain ⟨entry, inside, rfl⟩ := List.mem_map.mp member
  exact ((u.released_iff _).mp released).2 (u.kept ordered contained inside)

theorem Underway.careful {p : Progress R} {t : Traversal R}
    (u : Underway .needed context root p t) (ordered : context.Ordered)
    (contained : context.Contains root) : Careful context root p.visited t where
  root_stays released := ((u.released_iff root).mp released).2 (kept_root ..)
  off_stack _ released := u.off_stack ordered contained released
  users_visited node released user reaches used := by
    by_contra unvisited
    have member := (Context.mem_order_iff ordered contained user).mpr reaches
    exact ((u.released_iff node).mp released).2
      (kept_of_use .needed (u.remains member unvisited) used)
  uses_left user reaches unvisited operand := by
    by_cases used : operand ∈ context.operandsOf user
    · have member := (Context.mem_order_iff ordered contained user).mpr reaches
      rw [u.tables.uses rfl operand (ordered.contains_operand used)]
      exact Context.count_le_demand (u.remains member unvisited) operand
    · rw [List.count_eq_zero_of_not_mem used]
      exact Nat.zero_le _

theorem Underway.unmissed {p later : Progress R} {t t' : Traversal R}
    (u : Underway .needed context root p t) (u' : Underway .needed context root later t')
    (ordered : context.Ordered) (contained : context.Contains root) {between : List Node}
    (visited : later.visited = p.visited ++ between) :
    Unmissed context p.visited t t' between := by
  have remaining : p.remaining = between ++ later.remaining := by
    have whole := u.whole.symm.trans u'.whole
    rw [visited, List.append_assoc] at whole
    exact List.append_cancel_left whole
  have released (node : Node) (h : Released t p.visited node) : Released t' later.visited node := by
    obtain ⟨member, unneeded⟩ := (u.released_iff node).mp h
    refine (u'.released_iff node).mpr ⟨visited ▸ List.mem_append_left _ member, ?_⟩
    rintro (other | isRoot | needed)
    · simp at other
    · exact unneeded (Or.inr (Or.inl isRoot))
    · obtain ⟨user, remains, used⟩ := Context.demand_pos_iff.mp needed
      exact unneeded (kept_of_use .needed (remaining ▸ List.mem_append_right _ remains) used)
  constructor
  · exact fun node h => (released node h).2
  · exact fun node h => u'.off_stack ordered contained (released node h)
  · intro node h again
    have nodup := (ordered.settled_order root).nodup
    rw [u.whole, remaining] at nodup
    exact (List.nodup_append.mp nodup).2.2 node h.1 node (List.mem_append_left _ again) rfl
  · intro node h user visitedBetween used
    have remains : user ∈ p.remaining := remaining ▸ List.mem_append_left _ visitedBetween
    exact ((u.released_iff node).mp h).2 (kept_of_use .needed remains used)

theorem Underway.run_logged [ReportsError ε] (ordered : context.Ordered)
    (contained : context.Contains root) {visit : Visitor σ ε R} {steps : Nat} {p : Progress R}
    {t later : Traversal R} (u : Underway .needed context root p t) {s s' : σ}
    {visits visits' : List (Visit ε R)} (visited : visits.map Visit.node = p.visited)
    (ran : Traversal.run .needed context visit.logged steps t (visits, s) =
      (.ok later, visits', s')) :
    ∃ p', Underway .needed context root p' later ∧ visits'.map Visit.node = p'.visited ∧
      visits <+: visits' := by
  have keeps (nodes : List Node) (node : Node) (op : Op Node) (results : Op R)
      (state : List (Visit ε R) × σ) (value : R) (next : List (Visit ε R) × σ)
      (before : state.1.map Visit.node = nodes ∧ visits <+: state.1)
      (outcome : visit.logged node op results state = (.ok value, next)) :
      next.1.map Visit.node = nodes ++ [node] ∧ visits <+: next.1 := by
    obtain ⟨rfl, more⟩ := before
    simp only [Visitor.logged, Prod.mk.injEq] at outcome
    obtain ⟨_, rfl⟩ := outcome
    exact ⟨by simp, more.trans (List.prefix_append _ _)⟩
  exact u.run ordered contained
    (fun nodes state => state.1.map Visit.node = nodes ∧ visits <+: state.1) keeps steps
    ⟨visited, List.prefix_refl visits⟩ ran

end ExprGraph.Traversal

namespace ExprGraph.Context

variable {σ ε R : Type} [ReportsError ε] {context : Context} {root : Node}

/-- Giving results up early changes neither the visits nor the outcome. -/
theorem release_is_invisible (reachable : context.Reachable) (contained : context.Contains root)
    (visit : Visitor σ ε R) (s : σ) :
    (context.traverseRetaining .needed visit.logged root ([], s) =
        context.traverseRetaining .all visit.logged root ([], s) ∧
      context.traverseRetaining .needed visit root s =
        context.traverseRetaining .all visit root s) ∧
    (∀ (retention : Retention) (t : Traversal R) (s' : σ),
      Traversal.run retention context visit (Traversal.stepBound context) (.start context root) s =
        (.ok t, s') → t.todo = []) ∧
    Checked.traverse context (fun node op results s => some (visit node op results s)) root s =
      some (context.traverse visit root s) ∧
    ∀ (steps : Nat) (t : Traversal R) (visits : List (Visit ε R)) (s₁ : σ),
      Traversal.run .needed context visit.logged steps (.start context root) ([], s) =
        (.ok t, visits, s₁) →
      t.Careful context root (visits.map Visit.node) ∧
      ∀ (more : Nat) (later : Traversal R) (visits' : List (Visit ε R)) (s₂ : σ),
        Traversal.run .needed context visit.logged more t (visits, s₁) =
          (.ok later, visits', s₂) →
        ∃ between, visits' = visits ++ between ∧
          t.Unmissed context (visits.map Visit.node) later (between.map Visit.node) := by
  have ordered := reachable.ordered
  refine ⟨⟨?_, ?_⟩, ?_, Checked.traverse_eq ordered (Checked.matches_some context visit) root s, ?_⟩
  · rw [traverseRetaining_eq ordered contained, traverseRetaining_eq ordered contained]
  · rw [traverseRetaining_eq ordered contained, traverseRetaining_eq ordered contained]
  · intro retention t s' ran
    exact Traversal.run_finishes ordered contained (Nat.le_refl _) ran
  · intro steps t visits s₁ ran
    have start : Traversal.Underway .needed context root
        (Traversal.Progress.start context root : Traversal.Progress R) (.start context root) :=
      .start ordered contained
    obtain ⟨p, u, visited, _⟩ := start.run_logged ordered contained rfl ran
    rw [visited]
    refine ⟨u.careful ordered contained, fun more later visits' s₂ ranOn => ?_⟩
    obtain ⟨p', u', visited', between, rfl⟩ := u.run_logged ordered contained visited ranOn
    refine ⟨between, rfl, u.unmissed u' ordered contained ?_⟩
    rw [← visited', ← visited, List.map_append]

theorem start_shared : (.start shared ⟨4⟩ : Traversal Nat) =
    ⟨[⟨4⟩], #[none, none, none, none, none], #[2, 1, 2, 1, 0]⟩ := by
  rw [Traversal.start, countUses_shared]
  rfl

theorem release_shared :
    shared.Contains ⟨4⟩ ∧
      shared.traverseRetaining .needed (countUntil ⟨5⟩) ⟨4⟩ 0 =
        shared.traverseRetaining .all (countUntil ⟨5⟩) ⟨4⟩ 0 ∧
      ∃ (t : Traversal Nat) (visits : List (Visit Error Nat)),
        t.Released (visits.map Visit.node) ⟨2⟩ ∧ t.Careful shared ⟨4⟩ (visits.map Visit.node) := by
  have contained : shared.Contains ⟨4⟩ := by decide
  obtain ⟨⟨_, same⟩, _, _, moments⟩ :=
    release_is_invisible reachable_shared contained (countUntil ⟨5⟩) 0
  -- In eight steps the sum has been given up, but not its first term.
  obtain ⟨t, visits, s, ran, released⟩ :
      ∃ (t : Traversal Nat) (visits : List (Visit Error Nat)) (s : Nat),
        Traversal.run .needed shared (countUntil ⟨5⟩).logged 8 (.start shared ⟨4⟩) ([], 0) =
          (.ok t, visits, s) ∧ t.Released (visits.map Visit.node) ⟨2⟩ := by
    rw [start_shared]
    exact ⟨_, _, _, rfl, by decide, rfl⟩
  exact ⟨contained, same, t, visits, released, (moments 8 t visits s ran).1⟩

end ExprGraph.Context
