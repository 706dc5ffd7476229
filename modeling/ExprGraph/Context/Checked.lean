import ExprGraph.Tree.Exchange

set_option autoImplicit false

namespace ExprGraph.Checked

variable {σ ε R : Type}

def read {α : Type} (table : Array α) (node : Node) : Option α := table[node.index]?

def write {α : Type} (table : Array α) (node : Node) (value : α) : Option (Array α) :=
  if node.index < table.size then some (table.setIfInBounds node.index value) else none

def addUse (uses : Array Nat) (operand : Node) : Option (Array Nat) := do
  let count ← read uses operand
  write uses operand (count + 1)

def countUsesFrom (context : Context) (seen : Array Bool) (uses : Array Nat) :
    List Node → Option (Array Nat)
  | [] => some uses
  | node :: rest =>
    if h : node.index < seen.size then
      if seen[node.index] then countUsesFrom context seen uses rest
      else match context.op? node with
        | none => none
        | some op =>
          match op.operands.foldlM addUse uses with
          | none => none
          | some uses =>
            countUsesFrom context (seen.set node.index true) uses (op.operands ++ rest)
    else none
termination_by todo => (seen.count false, todo.length)
decreasing_by
  · exact Prod.Lex.right _ (by simp)
  · apply Prod.Lex.left
    have unseen : false ∈ seen := Array.mem_of_getElem (by simpa using ‹¬seen[node.index] = true›)
    have := Array.count_pos_iff.mpr unseen
    grind

def countUses (context : Context) (root : Node) : Option (Array Nat) :=
  countUsesFrom context (Array.replicate context.size false) (Array.replicate context.size 0) [root]

def release (t : Traversal R) (operand : Node) : Option (Traversal R) := do
  let count ← read t.uses operand
  if count = 0 then none
  let uses ← write t.uses operand (count - 1)
  let results ← if count - 1 = 0 then write t.results operand none else some t.results
  return { t with uses, results }

abbrev Visitor (σ ε R : Type) := Node → Op Node → Op R → σ → Option (Except ε R × σ)

def step (context : Context) (visit : Visitor σ ε R) (node : Node) (t : Traversal R) (s : σ) :
    Option (Except ε (Traversal R) × σ) := do
  let slot ← read t.results node
  if slot.isSome then return (.ok t, s)
  let op ← context.op? node
  let slots ← op.collect (read t.results)
  match slots.collect id with
  | some results =>
    match ← visit node op results s with
    | (.ok value, s) =>
      let results ← write t.results node (some value)
      let t ← op.operands.foldlM release { t with results }
      return (.ok t, s)
    | (.error e, s) => return (.error e, s)
  | none =>
    let pending := op.operands.filter fun operand => (t.result? operand).isNone
    return (.ok { t with todo := pending ++ node :: t.todo }, s)

def run (context : Context) (visit : Visitor σ ε R) :
    Nat → Traversal R → σ → Option (Except ε (Traversal R) × σ)
  | 0, t, s => some (.ok t, s)
  | steps + 1, t, s =>
    match t.todo with
    | [] => some (.ok t, s)
    | node :: rest =>
      match step context visit node { t with todo := rest } s with
      | some (.ok t, s) => run context visit steps t s
      | some (.error e, s) => some (.error e, s)
      | none => none

def traverse [ReportsError ε] (context : Context) (visit : Visitor σ ε R) (root : Node) (s : σ) :
    Option (Except ε R × σ) :=
  if context.Contains root then do
    let uses ← countUses context root
    let results := Array.replicate context.size none
    match ← run context visit (Traversal.stepBound context) ⟨[root], results, uses⟩ s with
    | (.ok t, s) =>
      match ← read t.results root with
      | some result => return (.ok result, s)
      | none => return (.error (ReportsError.report .badNode), s)
    | (.error e, s) => return (.error e, s)
  else some (.error (ReportsError.report .badNode), s)

def withArguments (op : Op Node) (arguments : List R) : Option (Op R) :=
  match op with
  | .number v => some (.number v)
  | .symbol s => some (.symbol s)
  | .binary code _ _ => do
    let left ← arguments[0]?
    let right ← arguments[1]?
    return .binary code left right

def parenthesize (context : Context) (node : Node) (text : String) (outer : Nat) :
    Option String := do
  let op ← context.op? node
  return (Infix.mk text op.precedence).within outer

def renderVisitor (context : Context) : Visitor Unit Error String := fun _ op results s =>
  match op with
  | .number v => some (.ok v.render, s)
  | .symbol name => some (.ok name, s)
  | .binary code lhs rhs => do
    let left ← parenthesize context lhs (← results.operands[0]?) code.precedence
    let right ← parenthesize context rhs (← results.operands[1]?) code.precedence
    return (.ok (left ++ " " ++ code.token ++ " " ++ right), s)

def render (context : Context) (root : Node) : Option (Except Error String) :=
  Prod.fst <$> traverse context (renderVisitor context) root ()

def reprVisitor : Visitor Unit Error String := fun _ op results s => do
  let layer ← withArguments op results.operands
  return (.ok (Context.reprLayer layer), s)

def repr (context : Context) (root : Node) : Option (Except Error String) :=
  Prod.fst <$> traverse context reprVisitor root ()

def exportVisitor : Visitor Nat Error Tree := fun _ op results next => do
  let layer ← withArguments op results.operands
  return (.ok (.ofOp next layer), next + 1)

def exportTree (context : Context) (root : Node) (next : Nat) : Option (Except Error Tree × Nat) :=
  traverse context exportVisitor root next

end ExprGraph.Checked
