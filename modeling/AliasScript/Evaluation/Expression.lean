import AliasScript.Evaluation.Operator
import AliasScript.Evaluation.Place

/-!
# Expressions

How each form of expression is evaluated, given an evaluator for the expressions inside. Operands
are evaluated from left to right.
-/

namespace AliasScript

namespace Evaluator

variable (r : Evaluator)

/-- The method of the superclass that `super` names, bound to the receiver of the enclosing
method. In a class method the receiver is a class, and the method is looked for among class
methods. -/
def superMethod (keyword method : Token) : Run Value := do
  match ← Run.read fun m ↦ m.distances.find? keyword.index with
  | some (distance + 1) =>
    match ← Run.read fun m ↦ m.store.frames.getAt m.here (distance + 1) "super" with
    | some (.classValue superclass) =>
      let receiver ← Run.require .thisUnbound
        (← Run.read fun m ↦ m.store.frames.getAt m.here distance "this")
      let found ← Run.read fun m ↦
        match receiver with
        | .classValue _ => m.store.findClassMethod superclass method.lexeme
        | _ => m.store.findMethod superclass method.lexeme
      bindFound r found method receiver (method.lexeme == "init")
    | _ => Run.breach .superUnbound
  | _ => Run.breach .superUnbound

/-- Evaluates an expression without following an alias. -/
def rawStep : Expr → Run Value
  | .literal value => return .ofLiteral value
  | .variable name => Run.lookup name
  | .this keyword => do
    match ← Run.binder? keyword with
    | some _ => Run.lookup keyword
    | none => Run.breach .thisUnbound
  | .super keyword method => superMethod r keyword method
  | .array _ elements => do Run.newArray (← evaluateAll r elements).toArray
  | .grouping inner => evaluate r inner
  | .function declaration => do
    Run.newClosure ⟨declaration, ← Run.read (·.here), false⟩
  | .unary operator operand => do unary operator (← evaluate r operand)
  | .reference operator target =>
    if target.isPlace then do
      let here ← Run.read (·.here)
      Run.onStore (·.addReference ⟨operator, target, here⟩)
    else Run.breach .referenceTarget
  | .binary left operator right => do
    let v ← evaluate r left
    let w ← evaluate r right
    binary operator v w
  | .logical left operator right => do
    let v ← evaluate r left
    if v.isTruthy == (operator.kind == .orWord) then return v else evaluate r right
  | .ternary condition _ whenTrue whenFalse => do
    if (← evaluate r condition).isTruthy then evaluate r whenTrue else evaluate r whenFalse
  | .assign name value => do
    let v ← evaluate r value
    store r name v
    return v
  | .call callee paren arguments => do
    let v ← evaluate r callee
    let args ← evaluateAll r arguments
    call r paren v args
  | .get object name => do property r (← evaluate r object) name
  | .set object name value => do
    let v ← evaluate r object
    match v with
    | .object _ | .classValue _ =>
      let w ← evaluate r value
      setProperty v name w
      return w
    | _ => Run.fault name .noFields
  | .subscript object bracket index => do
    let v ← evaluate r object
    let i ← evaluate r index
    element bracket v i
  | .setElement object bracket index value => do
    let v ← evaluate r object
    let i ← evaluate r index
    let w ← evaluate r value
    setElement bracket v i w
    return w

end Evaluator

end AliasScript
