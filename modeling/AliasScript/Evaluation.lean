import AliasScript.Evaluation.Statement

/-!
# Evaluation

The recursion of the evaluator, over a budget that bounds how deep the evaluation nests and how
often a loop goes round. Running out of it is no outcome of the program and is kept apart from
faults.
-/

namespace AliasScript

mutual

/-- Evaluates an expression on a budget, without following an alias. -/
def rawWithin : Nat → Expr → Run Value
  | 0, _ => Run.exhausted
  | n + 1, e => Evaluator.rawStep ⟨n, rawWithin n, executeWithin n, applyWithin n⟩ e

/-- Executes a statement on a budget. -/
def executeWithin : Nat → Stmt → Run Flow
  | 0, _ => Run.exhausted
  | n + 1, s => Evaluator.executeStep ⟨n, rawWithin n, executeWithin n, applyWithin n⟩ s

/-- Runs what is called on a budget. -/
def applyWithin : Nat → Token → Callee → List Value → Run Value
  | 0, _, _, _ => Run.exhausted
  | n + 1, paren, callee, arguments =>
    Evaluator.applyStep ⟨n, rawWithin n, executeWithin n, applyWithin n⟩ paren callee arguments

end

/-- The evaluator with a budget. -/
def evaluatorOf (budget : Nat) : Evaluator :=
  ⟨budget, rawWithin budget, executeWithin budget, applyWithin budget⟩

end AliasScript
