import AliasScript.Machine

/-!
# Evaluators and aliases

An evaluator says how to evaluate what is nested inside. The clauses of the language take one, so
each of them is a plain definition, and the recursion is added at the end.

An expression is evaluated *raw* where an alias is to be kept, which is in the declaration of a
variable only. Everywhere else an alias is followed to the value that it stands for.
-/

namespace AliasScript

/-- How a statement ended. -/
inductive Flow where
  | normal
  | returned (value : Value)
deriving DecidableEq, Repr

/-- How to evaluate what is nested inside. -/
structure Evaluator where
  /-- How often a loop may go round. -/
  rounds : Nat
  /-- Evaluates an expression without following an alias. -/
  raw : Expr → Run Value
  execute : Stmt → Run Flow
  /-- Runs what is called with some arguments, inside of the call. -/
  apply : Token → Callee → List Value → Run Value

/-- The most references that are followed to one value. -/
def maxHops : Nat := 256

/-- The most calls that are active at a time. -/
def maxDepth : Nat := 1024

namespace Evaluator

variable (r : Evaluator)

/-- Follows an alias, through so many references at most. -/
def followWithin : Nat → Value → Run Value
  | hops, .reference id => do
    let ref ← Run.require .dangling (← Run.read (·.store.references[id]?))
    match hops with
    | 0 => Run.fault ref.operator .referenceCycle
    | hops + 1 => followWithin hops (← Run.inFrame ref.frame (r.raw ref.target))
  | _, v => return v

/-- The value that a value stands for. -/
def follow (v : Value) : Run Value :=
  followWithin r maxHops v

/-- Evaluates an expression. -/
def evaluate (e : Expr) : Run Value := do
  follow r (← r.raw e)

/-- Evaluates expressions from left to right. -/
def evaluateAll : List Expr → Run (List Value)
  | [] => return []
  | e :: rest => do
    let v ← evaluate r e
    return v :: (← evaluateAll rest)

/-- Executes statements up to one that returns. -/
def executeAll : List Stmt → Run Flow
  | [] => return .normal
  | s :: rest => do
    match ← r.execute s with
    | .normal => executeAll rest
    | .returned v => return .returned v

end Evaluator

end AliasScript
