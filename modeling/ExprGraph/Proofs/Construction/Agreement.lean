import ExprGraph.Proofs.Arena.Persistence
import ExprGraph.Proofs.Construction.Lockstep

set_option autoImplicit false

namespace ExprGraph

namespace Made

variable {n : Nat}

def pairs (trees : Made Tree n) (nodes : Made Node n) : List (Tree × Node) :=
  trees.results.zip nodes.results

structure Matches (first : Nat) (context : Context) (trees : Made Tree n) (nodes : Made Node n) :
    Prop where
  lengths : trees.results.length = nodes.results.length
  mirrors : ∀ t node, (t, node) ∈ pairs trees nodes → Mirrors first context t node
  handle : ∀ i, (trees.handle i, nodes.handle i) ∈ pairs trees nodes

namespace Matches

variable {first : Nat} {context later : Context} {trees : Made Tree n} {nodes : Made Node n}
  {t : Tree} {node : Node}

theorem mono (agree : Matches first context trees nodes) (keeps : context.Keeps later) :
    Matches first later trees nodes :=
  ⟨agree.lengths, fun t node member => (agree.mirrors t node member).mono keeps, agree.handle⟩

theorem operand (agree : Matches first context trees nodes) (argument : Argument n) :
    Operand.Mirrors first context (argument.operand trees.handle)
      (argument.operand nodes.handle) := by
  cases argument with
  | handle i => exact .built (agree.mirrors _ _ (agree.handle i))
  | scalar v => exact .number v.toNumber

theorem extend (agree : Matches first context trees nodes) (mirrors : Mirrors first context t node)
    {k : Nat} {treeOf : Fin k → Tree} {nodeOf : Fin k → Node}
    (handles : ∀ i, (treeOf i, nodeOf i) = (t, node) ∨ (treeOf i, nodeOf i) ∈ pairs trees nodes) :
    Matches first context ⟨treeOf, trees.results ++ [t]⟩ ⟨nodeOf, nodes.results ++ [node]⟩ := by
  have split (pair : Tree × Node) : pair ∈ (trees.results ++ [t]).zip (nodes.results ++ [node]) ↔
      pair = (t, node) ∨ pair ∈ pairs trees nodes := by
    rw [List.zip_append agree.lengths, List.mem_append, or_comm, pairs]
    simp
  refine ⟨by simp [agree.lengths], fun u m member => ?_, fun i => (split _).mpr (handles i)⟩
  rcases (split (u, m)).mp member with last | old
  · obtain ⟨rfl, rfl⟩ : u = t ∧ m = node := by simpa using last
    exact mirrors
  · exact agree.mirrors u m old

theorem bind (agree : Matches first context trees nodes) (mirrors : Mirrors first context t node) :
    Matches first context (trees.bind t) (nodes.bind node) := by
  refine agree.extend mirrors fun i => ?_
  cases i using Fin.lastCases with
  | last => exact .inl (by simp)
  | cast i => exact .inr (by simpa using agree.handle i)

theorem rebind (agree : Matches first context trees nodes)
    (mirrors : Mirrors first context t node) (i : Fin n) :
    Matches first context (trees.rebind i t) (nodes.rebind i node) := by
  refine agree.extend mirrors fun other => ?_
  by_cases same : other = i
  · exact .inl (by simp [same])
  · exact .inr (by simpa [same] using agree.handle other)

theorem share (agree : Matches first context trees nodes) (i : Fin n) :
    Matches first context (trees.share i) (nodes.share i) := by
  refine ⟨agree.lengths, agree.mirrors, fun other => ?_⟩
  change ((trees.share i).handle other, (nodes.share i).handle other) ∈ pairs trees nodes
  cases other using Fin.lastCases with
  | last => simpa [Made.share] using agree.handle i
  | cast other => simpa [Made.share] using agree.handle other

end Matches

end Made

namespace Program

variable {n : Nat} {first : Nat} {trees : Made Tree n} {nodes : Made Node n} {context : Context}

structure Runs (program : Program n) (first : Nat) (trees : Made Tree n) (nodes : Made Node n)
    (context : Context) : Prop where
  made : program.run .trees first = (trees, first + context.size)
  built : program.nodes = (.ok nodes, context)
  ordered : context.Ordered
  agree : Made.Matches first context trees nodes

variable {program : Program n}

theorem Runs.call (runs : program.Runs first trees nodes context) {k : Nat} (next : Program k)
    {call : Made Tree n → Fresh Tree} {call' : Made Node n → Build Node} {t : Tree} {node : Node}
    {later : Context} (together : Together first context (call trees) (call' nodes) t node later)
    {keep : Made Tree n → Tree → Made Tree k} {keep' : Made Node n → Node → Made Node k}
    (make : next.run .trees = do
      let made ← program.run .trees
      return keep made (← call made))
    (build : next.run .nodes = do
      let made ← program.run .nodes
      return keep' made (← call' made))
    (kept : Made.Matches first later trees nodes → Mirrors first later t node →
      Made.Matches first later (keep trees t) (keep' nodes node)) :
    next.Runs first (keep trees t) (keep' nodes node) later := by
  have built : (program.run .nodes).run .empty = (.ok nodes, context) := runs.built
  refine ⟨?_, ?_, together.ordered runs.ordered,
    kept (runs.agree.mono together.keeps) together.mirrors⟩
  · rw [make, Fresh.run_bind runs.made, Fresh.run_bind together.made]
    rfl
  · simp only [Program.nodes, build, Build.run_bind, built, together.built]
    rfl

theorem Runs.exists_assign (runs : program.Runs first trees nodes context) (handle : Fin n)
    (code : Opcode) (rhs : Argument n) : ∃ t node later,
      (program.assign handle code rhs).Runs first (trees.rebind handle t)
        (nodes.rebind handle node) later ∧ context.Keeps later := by
  have bound : Operand.Mirrors first context (.built (trees.handle handle))
      (.built (nodes.handle handle)) := runs.agree.operand (.handle handle)
  obtain ⟨t, node, later, together⟩ := Together.exists_binary code bound (runs.agree.operand rhs)
  refine ⟨t, node, later, ?_, together.keeps⟩
  exact runs.call (program.assign handle code rhs) together rfl rfl
    fun agree mirrors => agree.rebind mirrors handle

theorem exists_runs (program : Program n) (first : Nat) :
    ∃ trees nodes context, program.Runs first trees nodes context := by
  induction program with
  | start => exact ⟨_, _, .empty, rfl, rfl, .empty, rfl, nofun, fun i => i.elim0⟩
  | number before v ih =>
    obtain ⟨trees, nodes, context, runs⟩ := ih
    obtain ⟨t, node, later, together⟩ := Together.exists_number v.toNumber
    exact ⟨_, _, later, runs.call (before.number v) together rfl rfl .bind⟩
  | symbol before name ih =>
    obtain ⟨trees, nodes, context, runs⟩ := ih
    obtain ⟨t, node, later, together⟩ := Together.exists_symbol name
    exact ⟨_, _, later, runs.call (before.symbol name) together rfl rfl .bind⟩
  | binary before code lhs rhs ih =>
    obtain ⟨trees, nodes, context, runs⟩ := ih
    obtain ⟨t, node, later, together⟩ :=
      Together.exists_binary code (runs.agree.operand lhs) (runs.agree.operand rhs)
    exact ⟨_, _, later, runs.call (before.binary code lhs rhs) together rfl rfl .bind⟩
  | clone before handle ih =>
    obtain ⟨trees, nodes, context, runs⟩ := ih
    refine ⟨trees.share handle, nodes.share handle, context, ?_, ?_, runs.ordered,
      runs.agree.share handle⟩
    · rw [run, Fresh.run_bind runs.made]
      rfl
    · have built : (before.run .nodes).run .empty = (.ok nodes, context) := runs.built
      simp only [Program.nodes, run, Build.run_bind, built]
      rfl
  | assign before handle code rhs ih =>
    obtain ⟨trees, nodes, context, runs⟩ := ih
    obtain ⟨t, node, later, next, _⟩ := runs.exists_assign handle code rhs
    exact ⟨_, _, later, next⟩

end Program

namespace Program

variable {n : Nat}

end Program

end ExprGraph
