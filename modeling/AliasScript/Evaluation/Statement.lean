import AliasScript.Evaluation.Expression
import AliasScript.Evaluation.Module

/-!
# Statements

How each form of statement is executed, given an evaluator for what is inside.
-/

namespace AliasScript

namespace Evaluator

variable (r : Evaluator)

/-- A loop, to be gone round so many times at most. -/
def loopWithin (condition : Run Value) (body : Run Flow) : Nat → Run Flow
  | 0 => Run.exhausted
  | n + 1 => do
    if (← condition).isTruthy then
      match ← body with
      | .normal => loopWithin condition body n
      | .returned v => return .returned v
    else return .normal

/-- The class that a name of a superclass stands for. -/
def superclassOf : Option Token → Run (Option ClassId)
  | none => return none
  | some name => do
    match ← evaluate r (.variable name) with
    | .classValue id => return some id
    | _ => Run.fault name .superclassNotClass

/-- Makes a class and binds its name. Methods of a class with a superclass see it as `super`. -/
def declareClass (name : Token) (superclass : Option Token)
    (methods classMethods : List Function) : Run Unit := do
  let superclass ← superclassOf r superclass
  let here ← Run.read (·.here)
  Run.define here name.lexeme .nil
  let id ← Run.onStore (·.addDeclared here name.lexeme superclass methods classMethods)
  match ← Run.read fun m ↦ m.store.frames.find? here name.lexeme with
  | some f => Run.define f name.lexeme (.classValue id)
  | none => Run.breach .classUnbound

/-- Executes a statement. -/
def executeStep : Stmt → Run Flow
  | .expression value => do
    let _ ← evaluate r value
    return .normal
  | .block body => do
    let frame ← Run.newFrame (← Run.read (·.here)) []
    Run.inFrame frame (executeAll r body)
  | .var name initial => do
    let v ← match initial with
      | some e => r.raw e
      | none => pure .nil
    Run.define (← Run.read (·.here)) name.lexeme v
    return .normal
  | .ifElse _ condition whenTrue whenFalse => do
    if (← evaluate r condition).isTruthy then r.execute whenTrue
    else
      match whenFalse with
      | some s => r.execute s
      | none => return .normal
  | .loop _ condition body => loopWithin (evaluate r condition) (r.execute body) r.rounds
  | .ret _ none => return .returned .nil
  | .ret _ (some value) => do return .returned (← evaluate r value)
  | .importModule keyword name => do
    match ← evaluate r name with
    | .str path =>
      importPath r keyword path
      return .normal
    | _ => Run.fault keyword .moduleNameNotString
  | .classDecl name superclass methods classMethods => do
    declareClass r name superclass methods classMethods
    return .normal

end Evaluator

end AliasScript
