import ExprGraph.Context.Loop
import ExprGraph.Proofs.Traversal.Release

set_option autoImplicit false

namespace ExprGraph

theorem Visitor.nodes_logged {σ ε R : Type} (visit : Visitor σ ε R) (node : Node) (op : Op Node)
    (results : Op R) (state : List (Visit ε R) × σ) :
    (visit.logged node op results state).2.1.map Visit.node = state.1.map Visit.node ++ [node] := by
  simp [logged]

namespace Traversal

open Relation (ReflTransGen)
open StateTransition (Reaches eval mem_eval)

variable {σ ε R : Type}

-- What the tables of a traversal do not tell: which entries of the stack have been put back to
-- wait, and which nodes ever were.
structure Moment (σ R : Type) where
  entries : List Entry
  waited : List Node
  traversal : Traversal R
  state : σ

namespace Moment

def start (context : Context) (root : Node) (s : σ) : Moment σ R :=
  ⟨[.due root], [], .start context root, s⟩

-- A turn of the loop, with the marks on the stack. The entry that it takes has left the stack, or
-- it has been put back below others.
inductive Turn (context : Context) (visit : Visitor σ ε R) (m : Moment σ R) :
    Moment σ R → Prop where
  | leave {entry : Entry} {under : List Entry} {t : Traversal R} {s : σ}
      (top : m.entries = entry :: under)
      (turned : Checked.turn context visit (.ok m.traversal, m.state) = some (.ok t, s))
      (todo : t.todo = under.map Entry.node) : Turn context visit m ⟨under, m.waited, t, s⟩
  | wait {entry : Entry} {under : List Entry} {t : Traversal R} {s : σ} {pending : List Node}
      (top : m.entries = entry :: under)
      (turned : Checked.turn context visit (.ok m.traversal, m.state) = some (.ok t, s))
      (todo : t.todo = pending ++ entry.node :: under.map Entry.node) :
      Turn context visit m
        ⟨pending.map .due ++ .waiting entry.node :: under, m.waited ++ [entry.node], t, s⟩

structure Disciplined (context : Context) (root : Node) (m : Moment σ R) : Prop where
  todo : m.traversal.todo = m.entries.map Entry.node
  descends : m.entries.Pairwise fun upper lower =>
    ∀ node, lower = .waiting node → context.Depends node upper.node
  once : m.waited.Nodup
  below : ∀ node ∈ m.waited, context.Reaches root node
  ready : ∀ node under, m.entries = .waiting node :: under → m.traversal.result? node = none ∧
    ∀ operand ∈ context.operandsOf node, (m.traversal.result? operand).isSome

def turnsLeft (context : Context) (m : Moment (List (Visit ε R) × σ) R) : Nat :=
  stepsLeft context (m.state.1.map Visit.node) m.entries

section Turn

variable {context : Context} {visit : Visitor σ ε R} {m next other : Moment σ R}

theorem Turn.turned (turn : Turn context visit m next) :
    Checked.turn context visit (.ok m.traversal, m.state) =
      some (.ok next.traversal, next.state) := by
  cases turn with
  | leave top turned todo | wait top turned todo => exact turned

theorem not_grown {t : Traversal R} {node : Node} {pending rest : List Node}
    (todo : t.todo = rest) : t.todo ≠ pending ++ node :: rest := by
  intro grown
  have lengths := congrArg List.length (todo.symm.trans grown)
  simp only [List.length_append, List.length_cons] at lengths
  omega

theorem Turn.unique (first : Turn context visit m next) (second : Turn context visit m other) :
    next = other := by
  have same : next.traversal = other.traversal ∧ next.state = other.state := by
    simpa using first.turned.symm.trans second.turned
  cases first with
  | @leave entry under t s top turned todo =>
    cases second with
    | @leave entry' under' t' s' top' turned' todo' =>
      obtain ⟨rfl, rfl⟩ := List.cons.inj (top.symm.trans top')
      obtain ⟨rfl, rfl⟩ : t = t' ∧ s = s' := same
      rfl
    | @wait entry' under' t' s' pending' top' turned' todo' =>
      obtain ⟨rfl, rfl⟩ := List.cons.inj (top.symm.trans top')
      obtain ⟨rfl, rfl⟩ : t = t' ∧ s = s' := same
      exact absurd todo' (not_grown todo)
  | @wait entry under t s pending top turned todo =>
    cases second with
    | @leave entry' under' t' s' top' turned' todo' =>
      obtain ⟨rfl, rfl⟩ := List.cons.inj (top.symm.trans top')
      obtain ⟨rfl, rfl⟩ : t = t' ∧ s = s' := same
      exact absurd todo (not_grown todo')
    | @wait entry' under' t' s' pending' top' turned' todo' =>
      obtain ⟨rfl, rfl⟩ := List.cons.inj (top.symm.trans top')
      obtain ⟨rfl, rfl⟩ : t = t' ∧ s = s' := same
      obtain rfl := List.append_cancel_right (todo.symm.trans todo')
      rfl

end Turn

end Moment

variable {context : Context} {root : Node}

theorem Underway.ready {p : Progress R} {t : Traversal R} {node : Node} {under : List Entry}
    (u : Underway .needed context root p t) (ordered : context.Ordered)
    (contained : context.Contains root) (top : p.entries = .waiting node :: under) :
    t.result? node = none ∧ ∀ operand ∈ context.operandsOf node, (t.result? operand).isSome := by
  have member : .waiting node ∈ p.entries := top ▸ List.mem_cons_self
  have unvisited : node ∉ p.visited := u.stack.unvisited node member
  have todo : t.todo = node :: under.map Entry.node := by simp [u.todo, top, Entry.node]
  constructor
  next =>
    rw [u.result?_top ordered contained todo, ← Option.not_isSome_iff_eq_none, u.known]
    exact unvisited
  next =>
    intro operand used
    have remains := u.waiting_remains ordered contained member
    rw [u.result?_operand remains used, u.known]
    exact (top ▸ u.stack).operands_visited used

theorem Underway.turn_eq [ReportsError ε] {p : Progress R} {t : Traversal R} {node : Node}
    {rest : List Node} (u : Underway .needed context root p t) (ordered : context.Ordered)
    (contained : context.Contains root) (visit : Visitor σ ε R) (top : t.todo = node :: rest)
    (s : σ) :
    Checked.turn context visit (.ok t, s) =
      some (step .needed context visit node { t with todo := rest } s) := by
  simp only [Checked.turn, top]
  exact Checked.step_eq ordered contained (Checked.matches_some context visit) u top s

namespace Moment

structure Tracked (context : Context) (root : Node) (p : Progress R)
    (m : Moment (List (Visit ε R) × σ) R) : Prop where
  underway : Underway .needed context root p m.traversal
  entries : m.entries = p.entries
  visited : m.state.1.map Visit.node = p.visited
  once : m.waited.Nodup
  below : ∀ node ∈ m.waited, context.Reaches root node
  spent : ∀ node ∈ m.waited, node ∈ p.visited ∨ .waiting node ∈ p.entries

variable {p : Progress R} {m : Moment (List (Visit ε R) × σ) R}

theorem tracked_start (ordered : context.Ordered) (contained : context.Contains root) (s : σ) :
    Tracked context root (Progress.start context root)
      (start context root (([] : List (Visit ε R)), s)) where
  underway := .start ordered contained
  entries := rfl
  visited := rfl
  once := List.nodup_nil
  below := nofun
  spent := nofun

theorem Tracked.disciplined (tracked : m.Tracked context root p) (ordered : context.Ordered)
    (contained : context.Contains root) : m.Disciplined context root where
  todo := tracked.entries ▸ tracked.underway.todo
  descends := tracked.entries ▸ tracked.underway.stack.descends
  once := tracked.once
  below := tracked.below
  ready _ _ top := tracked.underway.ready ordered contained (tracked.entries.symm.trans top)

theorem Tracked.turnsLeft_eq (tracked : m.Tracked context root p) :
    m.turnsLeft context = p.stepsLeft context := by
  rw [turnsLeft, tracked.visited, tracked.entries]
  rfl

theorem Tracked.leave (tracked : m.Tracked context root p) {entry : Entry} {under : List Entry}
    (top : p.entries = entry :: under) {p' : Progress R} {t : Traversal R}
    {state : List (Visit ε R) × σ} (next : Underway .needed context root p' t)
    (entries : p'.entries = p.entries.tail) (visited : state.1.map Visit.node = p'.visited)
    (more : p.visited ⊆ p'.visited) (done : entry.node ∈ p'.visited) :
    Tracked context root p' ⟨under, m.waited, t, state⟩ := by
  rw [top, List.tail_cons] at entries
  refine ⟨next, entries.symm, visited, tracked.once, tracked.below, fun node member => ?_⟩
  rcases tracked.spent node member with old | waits
  next => exact Or.inl (more old)
  next =>
    rw [top] at waits
    rw [entries]
    rcases List.mem_cons.mp waits with rfl | deeper
    next => exact Or.inl done
    next => exact Or.inr deeper

theorem Tracked.not_waited (tracked : m.Tracked context root p) (ordered : context.Ordered)
    {entry : Entry} {under : List Entry} (top : p.entries = entry :: under)
    (new : entry.node ∉ p.visited)
    (missing : ∃ operand ∈ context.operandsOf entry.node, operand ∉ p.visited) :
    entry.node ∉ m.waited := by
  have stack := tracked.underway.stack
  rw [top] at stack
  intro member
  rcases tracked.spent _ member with old | waits
  next => exact new old
  next =>
    rw [top] at waits
    rcases List.mem_cons.mp waits with same | deeper
    next =>
      obtain ⟨operand, used, unvisited⟩ := missing
      rw [← same] at stack
      exact unvisited (stack.operands_visited used)
    next =>
      have depends := (List.pairwise_cons.mp stack.descends).1 _ deeper _ rfl
      exact ordered.acyclic _ depends

theorem Tracked.wait (tracked : m.Tracked context root p) {entry : Entry} {under : List Entry}
    (top : p.entries = entry :: under) {pending : List Node} {t : Traversal R}
    (next : Underway .needed context root (p.wait entry.node pending) t)
    (fresh : entry.node ∉ m.waited) (reaches : context.Reaches root entry.node) :
    Tracked context root (p.wait entry.node pending)
      ⟨pending.map .due ++ .waiting entry.node :: under, m.waited ++ [entry.node], t, m.state⟩ := by
  have entries : (p.wait entry.node pending).entries =
      pending.map .due ++ .waiting entry.node :: under := by
    rw [Progress.wait, top, List.tail_cons]
  refine ⟨next, entries.symm, tracked.visited, ?once, ?below, ?spent⟩
  case once =>
    have apart : List.Disjoint m.waited [entry.node] := by simpa using fresh
    exact tracked.once.append (List.nodup_singleton _) apart
  case below =>
    intro node member
    rcases List.mem_append.mp member with old | last
    next => exact tracked.below node old
    next => exact List.mem_singleton.mp last ▸ reaches
  case spent =>
    intro node member
    rw [entries]
    rcases List.mem_append.mp member with old | last
    next =>
      refine (tracked.spent node old).imp_right fun waits => ?_
      rw [top] at waits
      rcases List.mem_cons.mp waits with rfl | deeper
      next => simp [Entry.node]
      next => simp [deeper]
    next => simp [List.mem_singleton.mp last]

variable [ReportsError ε]

theorem Tracked.advance (tracked : m.Tracked context root p) (ordered : context.Ordered)
    (contained : context.Contains root) {visit : Visitor σ ε R} {t : Traversal R}
    {state : List (Visit ε R) × σ}
    (turned : Checked.turn context visit.logged (.ok m.traversal, m.state) = some (.ok t, state)) :
    ∃ next p', Turn context visit.logged m next ∧ next.traversal = t ∧ next.state = state ∧
      next.Tracked context root p' ∧ p'.stepsLeft context < p.stepsLeft context := by
  have u := tracked.underway
  cases todo : m.traversal.todo with
  | nil => simp [Checked.turn, todo] at turned
  | cons node rest =>
    obtain ⟨entry, under, top, rfl, rfl⟩ := List.map_eq_cons_iff.mp (u.todo.symm.trans todo)
    have here : m.entries = entry :: under := tracked.entries.trans top
    have stepped := turned
    rw [u.turn_eq ordered contained visit.logged todo, Option.some.injEq] at stepped
    cases u.move ordered contained visit.logged todo with
    | skip old step_eq next fewer =>
      rw [step_eq] at stepped
      obtain ⟨rfl, rfl⟩ : _ = t ∧ m.state = state := by simpa using stepped
      exact ⟨_, p.skip, .leave here turned rfl, rfl, rfl,
        tracked.leave top next rfl tracked.visited (List.Subset.refl _) old, fewer⟩
    | visit new op results found collected first step_eq next fewer =>
      rw [step_eq] at stepped
      rcases outcome : visit.logged entry.node op results m.state with ⟨e | value, later⟩
      next => simp [outcome] at stepped
      next =>
        rw [outcome] at stepped
        obtain ⟨rfl, rfl⟩ : _ = t ∧ later = state := by simpa using stepped
        have visited : later.1.map Visit.node = p.visited ++ [entry.node] := by
          rw [← tracked.visited, ← visit.nodes_logged, outcome]
        have tracks := tracked.leave top (next value) rfl visited
          (List.subset_append_left _ _) (List.mem_append_right _ List.mem_cons_self)
        exact ⟨_, p.visit entry.node value, .leave here turned (store_todo ..), rfl, rfl, tracks,
          fewer value⟩
    | wait new pending step_eq next fewer missing =>
      rw [step_eq] at stepped
      obtain ⟨rfl, rfl⟩ : _ = t ∧ m.state = state := by simpa using stepped
      have member := u.mem_order ordered contained (top ▸ List.mem_cons_self)
      have reaches := (Context.mem_order_iff ordered contained entry.node).mp member
      have fresh := tracked.not_waited ordered top new missing
      exact ⟨_, p.wait entry.node pending, .wait here turned rfl, rfl, rfl,
        tracked.wait top next fresh reaches, fewer⟩

theorem Tracked.next (tracked : m.Tracked context root p) (ordered : context.Ordered)
    (contained : context.Contains root) {visit : Visitor σ ε R}
    {next : Moment (List (Visit ε R) × σ) R} (turn : Turn context visit.logged m next) :
    ∃ p', next.Tracked context root p' ∧ p'.stepsLeft context < p.stepsLeft context := by
  obtain ⟨same, p', advanced, _, _, tracks, fewer⟩ :=
    tracked.advance ordered contained turn.turned
  rw [turn.unique advanced]
  exact ⟨p', tracks, fewer⟩

def Occurs (context : Context) (root : Node) (visit : Visitor σ ε R) (s : σ)
    (m : Moment (List (Visit ε R) × σ) R) : Prop :=
  ReflTransGen (Turn context visit.logged) (start context root ([], s)) m

theorem Occurs.tracked {visit : Visitor σ ε R} {s : σ} (occurs : m.Occurs context root visit s)
    (ordered : context.Ordered) (contained : context.Contains root) :
    ∃ p, m.Tracked context root p := by
  induction occurs with
  | refl => exact ⟨_, tracked_start ordered contained s⟩
  | tail _ turn ih =>
    obtain ⟨p, tracked⟩ := ih
    obtain ⟨p', tracks, _⟩ := tracked.next ordered contained turn
    exact ⟨p', tracks⟩

theorem exists_occurs (ordered : context.Ordered) (contained : context.Contains root)
    (visit : Visitor σ ε R) (s : σ) {t : Traversal R} {state : List (Visit ε R) × σ}
    (reached : Reaches (Checked.turn context visit.logged) (.ok (.start context root), [], s)
      (.ok t, state)) :
    ∃ m, Occurs context root visit s m ∧ m.traversal = t ∧ m.state = state := by
  generalize ending : (Except.ok t, state) = last at reached
  induction reached generalizing t state with
  | refl =>
    obtain ⟨rfl, rfl⟩ : t = _ ∧ state = _ := by simpa using ending
    exact ⟨start context root ([], s), .refl, rfl, rfl⟩
  | @tail before _ _ turned ih =>
    subst ending
    rcases before with ⟨e | t', state'⟩
    next => simp [Checked.turn] at turned
    next =>
      obtain ⟨m, occurs, rfl, rfl⟩ := ih rfl
      obtain ⟨p, tracked⟩ := occurs.tracked ordered contained
      obtain ⟨next, _, turn, same, sameState, _⟩ := tracked.advance ordered contained turned
      exact ⟨next, occurs.tail turn, same, sameState⟩

end Moment

-- A loop that also lists its visits, without the list.
def unlisted (c : Except ε (Traversal R) × List (Visit ε R) × σ) : Except ε (Traversal R) × σ :=
  (c.1, c.2.2)

theorem step_unlisted (context : Context) (visit : Visitor σ ε R) (node : Node) (t : Traversal R)
    (visits : List (Visit ε R)) (s : σ) :
    Checked.step context (fun node op results s => some (visit node op results s)) node t s =
      (Checked.step context (fun node op results s => some (visit.logged node op results s)) node t
        (visits, s)).map unlisted := by
  simp only [Checked.step, Option.bind_eq_bind]
  cases Checked.read t.results node with
  | none => rfl
  | some slot =>
    cases slot with
    | some value => rfl
    | none =>
      simp only [Option.bind_some, Option.isSome_none, Bool.false_eq_true, if_false,
        Option.map_bind]
      refine Option.bind_congr fun op _ => ?_
      simp only [Function.comp_apply, Option.map_bind]
      refine Option.bind_congr fun slots _ => ?_
      cases slots.collect id with
      | none => simp [unlisted]
      | some results =>
        rcases outcome : visit node op results s with ⟨e | value, s'⟩
        next => simp [Visitor.logged, outcome, unlisted]
        next =>
          simp only [Visitor.logged, outcome, Function.comp_apply, Option.map_bind]
          rfl

theorem turn_unlisted (context : Context) (visit : Visitor σ ε R)
    (c : Except ε (Traversal R) × List (Visit ε R) × σ) :
    Checked.turn context visit (unlisted c) =
      (Checked.turn context visit.logged c).map unlisted := by
  obtain ⟨e | t, visits, s⟩ := c
  next => rfl
  next =>
    simp only [Checked.turn, unlisted]
    cases t.todo with
    | nil => rfl
    | cons node rest => exact step_unlisted context visit node _ visits s

theorem exists_listed (context : Context) (visit : Visitor σ ε R) {t : Traversal R} {s : σ}
    {c : Except ε (Traversal R) × σ} (reached : Reaches (Checked.turn context visit) (.ok t, s) c) :
    ∃ listed, Reaches (Checked.turn context visit.logged) (.ok t, [], s) listed ∧
      unlisted listed = c := by
  induction reached with
  | refl => exact ⟨(.ok t, [], s), .refl, rfl⟩
  | tail _ turned ih =>
    obtain ⟨listed, before, rfl⟩ := ih
    rw [turn_unlisted] at turned
    obtain ⟨next, step, same⟩ := Option.map_eq_some_iff.mp turned
    exact ⟨next, before.tail step, same⟩

theorem reaches_run {visit : Visitor σ ε R} {steps : Nat} {t : Traversal R} {s : σ}
    {outcome : Except ε (Traversal R) × σ}
    (ran : Checked.run context (fun node op results s => some (visit node op results s)) steps t s =
      some outcome) : Reaches (Checked.turn context visit) (.ok t, s) outcome := by
  induction steps generalizing t s with
  | zero =>
    obtain rfl : (Except.ok t, s) = outcome := by simpa [Checked.run] using ran
    exact .refl
  | succ steps ih =>
    cases top : t.todo with
    | nil =>
      obtain rfl : (Except.ok t, s) = outcome := by simpa [Checked.run, top] using ran
      exact .refl
    | cons node rest =>
      have turned : Checked.turn context visit (.ok t, s) =
          Checked.step context (fun node op results s => some (visit node op results s)) node
            { t with todo := rest } s := by
        simp only [Checked.turn, top]
      simp only [Checked.run, top] at ran
      split at ran
      case h_1 later s' stepped => exact .head (turned.trans stepped) (ih ran)
      case h_2 e s' stepped =>
        obtain rfl := Option.some.inj ran
        exact .single (turned.trans stepped)
      case h_3 => simp at ran

variable [ReportsError ε]

-- Left to itself the loop ends where it ends within its bound.
theorem run_mem_eval (ordered : context.Ordered) (contained : context.Contains root)
    (visit : Visitor σ ε R) (s : σ) :
    run .needed context visit (stepBound context) (.start context root) s ∈
      eval (Checked.turn context visit) (.ok (.start context root), s) := by
  have start : Underway .needed context root (Progress.start context root : Progress R)
      (.start context root) := .start ordered contained
  have ran := Checked.run_eq ordered contained (Checked.matches_some context visit)
    (stepBound context) start s
  refine mem_eval.mpr ⟨reaches_run ran, ?_⟩
  rcases outcome : run .needed context visit (stepBound context) (.start context root) s with
    ⟨e | t, s'⟩
  next => rfl
  next =>
    have ended := run_finishes ordered contained (Nat.le_refl _) outcome
    simp [Checked.turn, ended]

theorem exists_result (ordered : context.Ordered) (contained : context.Contains root)
    {visit : Visitor σ ε R} {s s' : σ} {t : Traversal R}
    (ran : run .needed context visit (stepBound context) (.start context root) s = (.ok t, s')) :
    t.todo = [] ∧ ∃ value, t.result? root = some value := by
  have ended := run_finishes ordered contained (Nat.le_refl _) ran
  have start : Underway .needed context root (Progress.start context root : Progress R)
      (.start context root) := .start ordered contained
  obtain ⟨p, u, _⟩ := start.run ordered contained (fun _ _ => True)
    (fun _ _ _ _ _ _ _ _ _ => trivial) _ trivial ran
  obtain ⟨nothing, result⟩ := u.finished ended
  have visited : root ∈ p.visited := by
    have whole := u.whole
    rw [nothing, List.append_nil] at whole
    exact whole ▸ (Context.mem_order_iff ordered contained root).mpr (.refl root)
  rw [← u.known, ← result, Option.isSome_iff_exists] at visited
  exact ⟨ended, visited⟩

/-- The loop of a traversal ends by itself. Every turn leaves fewer turns, so no bound is needed. -/
theorem loop_ends (reachable : context.Reachable) (contained : context.Contains root)
    (visit : Visitor σ ε R) (s : σ) :
    ((∃ t s' value, (.ok t, s') ∈ eval (Checked.turn context visit) (.ok (.start context root), s) ∧
        t.todo = [] ∧ t.result? root = some value ∧
        context.traverse visit root s = (.ok value, s')) ∨
      ∃ e s', (.error e, s') ∈ eval (Checked.turn context visit) (.ok (.start context root), s) ∧
        context.traverse visit root s = (.error e, s')) ∧
    (∀ t visits s', Reaches (Checked.turn context visit.logged)
        (.ok (.start context root), [], s) (.ok t, visits, s') →
      ∃ m, Moment.Occurs context root visit s m ∧ m.traversal = t ∧ m.state = (visits, s')) ∧
    (∀ t s', Reaches (Checked.turn context visit) (.ok (.start context root), s) (.ok t, s') →
      ∃ m, Moment.Occurs context root visit s m ∧ m.traversal = t ∧ m.state.2 = s') ∧
    ∀ m, Moment.Occurs context root visit s m → m.Disciplined context root ∧
      ∀ next, Moment.Turn context visit.logged m next →
        next.turnsLeft context < m.turnsLeft context := by
  have ordered := reachable.ordered
  have moments (t : Traversal R) (visits : List (Visit ε R)) (s' : σ)
      (reached : Reaches (Checked.turn context visit.logged) (.ok (.start context root), [], s)
        (.ok t, visits, s')) :
      ∃ m, Moment.Occurs context root visit s m ∧ m.traversal = t ∧ m.state = (visits, s') :=
    Moment.exists_occurs ordered contained visit s reached
  refine ⟨?ends, moments, ?plain, ?disciplined⟩
  case ends =>
    have ends := run_mem_eval ordered contained visit s
    rcases outcome : run .needed context visit (stepBound context) (.start context root) s with
      ⟨e | t, s'⟩
    next =>
      rw [outcome] at ends
      refine Or.inr ⟨e, s', ends, ?_⟩
      simp only [Context.traverse, Context.traverseRetaining, if_pos contained, outcome]
    next =>
      rw [outcome] at ends
      obtain ⟨ended, value, result⟩ := exists_result ordered contained outcome
      refine Or.inl ⟨t, s', value, ends, ended, result, ?_⟩
      simp only [Context.traverse, Context.traverseRetaining, if_pos contained, outcome, result]
  case plain =>
    intro t s' reached
    obtain ⟨⟨_, visits, _⟩, listed, same⟩ := exists_listed context visit reached
    obtain ⟨rfl, rfl⟩ := Prod.mk.inj same
    obtain ⟨m, occurs, traversal, state⟩ := moments t visits _ listed
    exact ⟨m, occurs, traversal, congrArg Prod.snd state⟩
  case disciplined =>
    intro m occurs
    obtain ⟨p, tracked⟩ := occurs.tracked ordered contained
    refine ⟨tracked.disciplined ordered contained, fun next turn => ?_⟩
    obtain ⟨p', tracks, fewer⟩ := tracked.next ordered contained turn
    rw [tracks.turnsLeft_eq, tracked.turnsLeft_eq]
    exact fewer

def rootWaits : Moment (List (Visit Error Nat) × Nat) Nat where
  entries := [.due ⟨3⟩, .due ⟨0⟩, .waiting ⟨4⟩]
  waited := [⟨4⟩]
  traversal := ⟨[⟨3⟩, ⟨0⟩, ⟨4⟩], #[none, none, none, none, none], #[2, 1, 2, 1, 0]⟩
  state := ([], 0)

def squareWaits : Moment (List (Visit Error Nat) × Nat) Nat where
  entries := [.due ⟨2⟩, .due ⟨2⟩, .waiting ⟨3⟩, .due ⟨0⟩, .waiting ⟨4⟩]
  waited := [⟨4⟩, ⟨3⟩]
  traversal := ⟨[⟨2⟩, ⟨2⟩, ⟨3⟩, ⟨0⟩, ⟨4⟩], #[none, none, none, none, none], #[2, 1, 2, 1, 0]⟩
  state := ([], 0)

theorem squareWaits_disciplined :
    Context.shared.Reachable ∧ Context.shared.Contains ⟨4⟩ ∧
      squareWaits.Occurs Context.shared ⟨4⟩ (Context.countUntil ⟨5⟩) 0 ∧
      squareWaits.Disciplined Context.shared ⟨4⟩ := by
  have contained : Context.shared.Contains ⟨4⟩ := by decide
  have occurs : squareWaits.Occurs Context.shared ⟨4⟩ (Context.countUntil ⟨5⟩) 0 := by
    rw [Moment.Occurs, Moment.start, Context.start_shared]
    refine .tail (.single (?first : Moment.Turn _ _ _ rootWaits)) ?second
    case first => exact @Moment.Turn.wait _ _ _ _ _ _ (.due ⟨4⟩) [] _ _ [⟨3⟩, ⟨0⟩] rfl rfl rfl
    case second =>
      exact @Moment.Turn.wait _ _ _ _ _ _ (.due ⟨3⟩) [.due ⟨0⟩, .waiting ⟨4⟩] _ _ [⟨2⟩, ⟨2⟩]
        rfl rfl rfl
  obtain ⟨_, _, _, moments⟩ :=
    loop_ends Context.reachable_shared contained (Context.countUntil ⟨5⟩) 0
  exact ⟨Context.reachable_shared, contained, occurs, (moments squareWaits occurs).1⟩

end Traversal

end ExprGraph
