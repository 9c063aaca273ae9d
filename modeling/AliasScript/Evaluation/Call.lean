import AliasScript.Builtin.Call
import AliasScript.Evaluation.Alias

/-!
# Calls

Functions, classes and built-in functions can be called. A call of a function runs its body in a
new frame inside the frame that the function was made in; a call of a class makes an instance and
runs its initializer. The number of active calls is bounded.
-/

namespace AliasScript

namespace Evaluator

variable (r : Evaluator)

/-- Binds a method to its receiver. -/
def bindMethod (method : Closure) (receiver : Value) (isInitializer : Bool) : Run Closure := do
  let frame ← Run.newFrame method.frame [("this", receiver)]
  return ⟨method.declaration, frame, isInitializer⟩

/-- Calls a function in a new frame that binds its parameters. -/
def callFunction (closure : Closure) (arguments : List Value) : Run Value := do
  let names := (closure.declaration.parameters.getD []).map Token.lexeme
  let frame ← Run.newFrame closure.frame (.ofPairs (names.zip arguments))
  let flow ← Run.inFrame frame (executeAll r closure.declaration.body)
  if closure.isInitializer then
    Run.require .initializerUnbound
      (← Run.read fun m ↦ m.store.frames.getAt closure.frame 0 "this")
  else
    match flow with
    | .normal => return .nil
    | .returned v => return v

/-- Makes an instance and runs its initializer. -/
def construct (id : ClassId) (arguments : List Value) : Run Value := do
  let object ← Run.onStore (·.addObject ⟨id, []⟩)
  match ← Run.read fun m ↦ m.store.findMethod id "init" with
  | some method =>
    let _ ← callFunction r (← bindMethod method (.object object) true) arguments
    return .object object
  | none => return .object object

/-- Runs what is called, with the right number of arguments. -/
def applyStep (paren : Token) (callee : Callee) (arguments : List Value) : Run Value :=
  match callee with
  | .function closure => callFunction r closure arguments
  | .construct id _ => construct r id arguments
  | .builtin b => b.call paren arguments

/-- Calls something with the right number of arguments. -/
def invoke (paren : Token) (callee : Callee) (arguments : List Value) : Run Value := do
  if maxDepth ≤ (← Run.read (·.depth)) then Run.fault paren .stackDepth
  else
    Run.note (.calling (Store.calleeName callee) arguments.length)
    Run.inCall (r.apply paren callee arguments)

/-- Calls a value. -/
def call (paren : Token) (v : Value) (arguments : List Value) : Run Value := do
  match ← Run.read fun m ↦ m.store.callee? v with
  | none => Run.fault paren .notCallable
  | some callee =>
    let arity ← Run.read fun m ↦ m.store.calleeArity callee
    if arity == arguments.length then invoke r paren callee arguments
    else Run.fault paren (.argumentCount arity arguments.length)

end Evaluator

end AliasScript
