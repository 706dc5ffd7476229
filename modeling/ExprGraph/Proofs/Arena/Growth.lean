import ExprGraph.Proofs.Arena.History
import ExprGraph.Proofs.Graph.Below

set_option autoImplicit false

namespace ExprGraph

def Context.Keeps (context later : Context) : Prop :=
  ∀ node op, context.op? node = some op → later.op? node = some op

namespace Context

variable {a b c context : Context}

theorem Keeps.refl (context : Context) : context.Keeps context := fun _ _ found => found

theorem Keeps.trans (first : a.Keeps b) (second : b.Keeps c) : a.Keeps c :=
  fun node op found => second node op (first node op found)

theorem Keeps.contains (keeps : a.Keeps b) {node : Node} (h : a.Contains node) :
    b.Contains node := by
  obtain ⟨op, found⟩ := contains_iff_op?.mp h
  exact contains_iff_op?.mpr ⟨op, keeps node op found⟩

theorem Unfolds.mono {node : Node} {e : Expr} (unfolds : a.Unfolds node e) (keeps : a.Keeps b) :
    b.Unfolds node e := by
  induction unfolds with
  | number found => exact .number (keeps _ _ found)
  | symbol found => exact .symbol (keeps _ _ found)
  | binary found _ _ left right => exact .binary (keeps _ _ found) left right

theorem keeps_push (context : Context) (op : Op Node) : context.Keeps (context.push op).2 := by
  intro node stored found
  rw [op?_push_of_contains _ _ _ (contains_iff_op?.mpr ⟨stored, found⟩), found]

end Context

namespace Tree

theorem Entry.keeps_add {entry later : Entry} {t : Tree} (added : entry.add t = some later) :
    entry.context.Keeps later.context := by
  rw [add] at added
  split at added
  case h_1 op _ =>
    obtain rfl := Option.some.inj added
    exact entry.context.keeps_push op
  case h_2 => simp at added

theorem keeps_enter {tasks : List Task} {entry later : Entry}
    (entered : enter tasks entry = some later) : entry.context.Keeps later.context := by
  fun_induction enter tasks entry with
  | case1 entry =>
    obtain rfl := Option.some.inj entered
    exact .refl _
  | case2 _ _ _ _ ih | case3 _ _ _ _ ih => exact ih entered
  | case4 _ _ _ _ added _ ih => exact (Entry.keeps_add added).trans (ih entered)
  | case5 => simp at entered

end Tree

namespace Context

variable {context : Context}

theorem keeps_importTree (context : Context) (t : Tree) :
    context.Keeps (context.importTree t).2 := by
  have imported := context.importTree?_eq t
  rw [importTree?] at imported
  obtain ⟨entry, entered, rest⟩ := Option.bind_eq_some_iff.mp imported
  obtain ⟨node, _, done⟩ := Option.bind_eq_some_iff.mp rest
  have later : entry.context = (context.importTree t).2 := congrArg Prod.snd (Option.some.inj done)
  exact later ▸ Tree.keeps_enter entered

end Context

namespace Build

variable {context : Context}

theorem keeps_settle (context : Context) (o : Operand Node) :
    context.Keeps (o.settle context).2 := by
  cases o with
  | built n => exact .refl _
  | number v => exact context.keeps_push _

theorem keeps_binary (code : Opcode) (lhs rhs : Operand Node) :
    context.Keeps ((binary code lhs rhs).run context).2 := by
  by_cases left : lhs.Missing context.size
  · rw [run_binary_of_left left]
    exact .refl _
  have first := keeps_settle context lhs
  by_cases right : rhs.Missing (context.size + lhs.added)
  · rwa [run_binary_of_right left right]
  · rw [run_binary_of_present left right]
    exact (first.trans (keeps_settle _ rhs)).trans (Context.keeps_push _ _)

theorem keeps_checked {α : Type} (checked : Except Error α) (terminal : α → Op Node) :
    context.Keeps (run (do push (terminal (← checked))) context).2 := by
  rw [run_checked]
  cases checked with
  | error e => exact .refl _
  | ok a => exact context.keeps_push _

end Build

namespace Context

variable {context : Context}

theorem keeps_after (call : Call) (h : call ≠ .clear) : context.Keeps (context.after call) := by
  cases call with
  | number v => exact context.keeps_push _
  | symbol s => exact context.keeps_push _
  | tryNumber v => exact Build.keeps_checked v.asNumber _
  | trySymbol v => exact Build.keeps_checked v.asSymbol _
  | binary code lhs rhs => exact Build.keeps_binary code lhs rhs
  | importTree t => exact context.keeps_importTree t
  | clear => exact absurd rfl h

def afterAll (context : Context) (calls : List Call) : Context := calls.foldl after context

theorem keeps_afterAll (calls : List Call) (h : ∀ call ∈ calls, call ≠ .clear) :
    context.Keeps (context.afterAll calls) := by
  induction calls generalizing context with
  | nil => exact .refl _
  | cons call rest ih =>
    exact (keeps_after call (h call List.mem_cons_self)).trans
      (ih fun later member => h later (List.mem_cons_of_mem _ member))

theorem Reachable.afterAll (reachable : context.Reachable) (calls : List Call) :
    (context.afterAll calls).Reachable := by
  induction calls generalizing context with
  | nil => exact reachable
  | cons call rest ih => exact ih (.after call reachable)

end Context

end ExprGraph
