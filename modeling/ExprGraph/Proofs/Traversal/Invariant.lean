import ExprGraph.Proofs.Traversal.Visits

set_option autoImplicit false

namespace ExprGraph

variable {σ ε R : Type}

namespace Visitor

def Preserves (visit : Visitor σ ε R) (P : σ → Prop) : Prop :=
  ∀ node op results s, P s → P (visit node op results s).2

def Total (visit : Visitor σ ε R) : Prop :=
  ∀ node op results s, ∃ value s', visit node op results s = (.ok value, s')

theorem Total.preserves_succeeded {visit : Visitor σ ε R} (total : visit.Total) :
    visit.logged.Preserves fun state => Succeeded state.1 := by
  rintro node op results ⟨visits, s⟩ succeeded
  obtain ⟨value, s', called⟩ := total node op results s
  simp only [logged, called]
  exact succeeded.snoc rfl

end Visitor

namespace Traversal

variable [ReportsError ε] (retention : Retention) (context : Context) {visit : Visitor σ ε R}
  {P : σ → Prop}

theorem step_preserves (kept : visit.Preserves P) (node : Node) (t : Traversal R) {s : σ}
    (holds : P s) : P (step retention context visit node t s).2 := by
  rw [step]
  split
  case isTrue => exact holds
  case isFalse =>
    split
    case h_1 => exact holds
    case h_2 op _ =>
      split
      case h_2 => exact holds
      case h_1 results _ =>
        have next := kept node op results s holds
        split
        case h_1 called | h_2 called =>
          rw [called] at next
          exact next

theorem run_preserves (kept : visit.Preserves P) (steps : Nat) (t : Traversal R) {s : σ}
    (holds : P s) : P (run retention context visit steps t s).2 := by
  induction steps generalizing t s with
  | zero => exact holds
  | succ steps ih =>
    rw [run]
    split
    case h_1 => exact holds
    case h_2 node rest _ =>
      have next := step_preserves retention context kept node { t with todo := rest } holds
      split
      case h_1 later s' stepped =>
        rw [stepped] at next
        exact ih later next
      case h_2 e s' stepped =>
        rw [stepped] at next
        exact next

end Traversal

namespace Context

variable [ReportsError ε] {context : Context} {root : Node} {visit : Visitor σ ε R}

theorem traverse_preserves {P : σ → Prop} (kept : visit.Preserves P) (root : Node) {s : σ}
    (holds : P s) : P (context.traverse visit root s).2 := by
  have last := Traversal.run_preserves .needed context kept (Traversal.stepBound context)
    (.start context root) holds
  rw [traverse, traverseRetaining]
  split
  case isFalse => exact holds
  case isTrue =>
    split
    case h_1 t s' ran =>
      rw [ran] at last
      split <;> exact last
    case h_2 e s' ran =>
      rw [ran] at last
      exact last

theorem Ordered.exists_visits_of_total (ordered : context.Ordered)
    (contained : context.Contains root) (total : visit.Total) (s : σ) :
    ∃ value visits s', context.traverse visit.logged root ([], s) = (.ok value, visits, s') ∧
      context.traverse visit root s = (.ok value, s') ∧ visits ≠ [] := by
  obtain ⟨visits, outcome, s', logged, plain, inOrder⟩ := ordered.exists_visits contained visit s
  have succeeded : Succeeded (context.traverse visit.logged root ([], s)).2.1 :=
    traverse_preserves total.preserves_succeeded root nofun
  rw [logged] at succeeded
  obtain ⟨init, final, rfl, _, returned⟩ := inOrder.last
  obtain ⟨value, isOk⟩ := succeeded final (by simp)
  obtain rfl : outcome = .ok value := returned.symm.trans isOk
  exact ⟨value, _, s', logged, plain, by simp⟩

end Context

end ExprGraph
