import AliasScript.Diagnostic

/-!
# Faults

What can go wrong while a program is running, and how it is reported.
-/

namespace AliasScript

/-- Why a run is aborted. -/
inductive FaultCause where
  | undefinedVariable (name : String)
  | referenceCycle
  | stackDepth
  | noProperties
  | noFields
  | undefinedProperty (name : String)
  | notSubscriptable
  | indexNotNumber
  | indexOutOfRange
  | sumOperands
  | differenceOperands
  /-- More elements are to be removed from an array than it has, or fewer than none. -/
  | removal (count : Float) (size : Nat)
  | operandsNotNumbers
  | operandNotNumber
  | divisionByZero
  | notCallable
  | argumentCount (expected got : Nat)
  | superclassNotClass
  | moduleNameNotString
  | moduleUnreadable (path : String)
  | moduleUnknown (name : String)
  | moduleRejected (name : String) (errors : List Diagnostic)
  | outputFull
  | roundArgument
deriving DecidableEq, Repr

namespace FaultCause

/-- What a report says of the cause. -/
def message : FaultCause → String
  | undefinedVariable name => "Undefined variable '" ++ name ++ "'."
  | referenceCycle => "Reference cycle detected."
  | stackDepth => "Stack depth exceeded."
  | noProperties => "Only instances have properties."
  | noFields => "Only instances have fields."
  | undefinedProperty name => "Undefined property '" ++ name ++ "'."
  | notSubscriptable => "Only arrays can be subscripted."
  | indexNotNumber => "Only numbers can be used as an array index."
  | indexOutOfRange => "Array index out of range."
  | sumOperands => "Invalid operands to binary operator '+'."
  | differenceOperands => "Invalid operands to binary operator '-'."
  | removal count size =>
    "Cannot remove " ++ Number.text (Number.trunc count) ++ " elements from an array of size " ++
      toString size ++ "."
  | operandsNotNumbers => "Operands must be numbers."
  | operandNotNumber => "Operand must be a number."
  | divisionByZero => "Cannot divide by zero."
  | notCallable => "Only functions and classes are callable."
  | argumentCount expected got =>
    "Expected " ++ toString expected ++ " arguments but got " ++ toString got ++ "."
  | superclassNotClass => "Superclass must be a class."
  | moduleNameNotString => "Module name must be a string."
  | moduleUnreadable path => "Could not import module '" ++ path ++ "'."
  | moduleUnknown name => "'std:" ++ name ++ "' is not a standard library module."
  | moduleRejected name errors =>
    "Could not compile module '" ++ name ++ "'.\n" ++ Diagnostic.renderAll errors
  | outputFull => "Could not write output: sink full."
  | roundArgument => "Argument to 'round' must be a number."

end FaultCause

/-- A fault, with the token at which it arose. -/
structure Fault where
  token : Token
  cause : FaultCause
deriving DecidableEq, Repr

namespace Fault

/-- The fault as it is reported: what went wrong, and the line. -/
def render (f : Fault) : String :=
  f.cause.message ++ "\n[line " ++ toString f.token.line ++ "]"

end Fault

/-- A state that no accepted program leads to. -/
inductive Breach where
  /-- An operator that is none. -/
  | operator
  /-- An alias of what is no place. -/
  | referenceTarget
  /-- `super` without a class in the frame that it is looked up in. -/
  | superUnbound
  /-- `this` without a receiver in the frame that it is looked up in. -/
  | thisUnbound
  /-- An initializer that is not bound to an instance. -/
  | initializerUnbound
  /-- A class whose name is not bound where it was just bound. -/
  | classUnbound
  /-- A `return` that no function takes. -/
  | strayReturn
  /-- A built-in function with the wrong number of arguments. -/
  | argumentCount
  /-- A number that names nothing in the store. -/
  | dangling
deriving DecidableEq, Repr

/-- Why an action stops before its end. -/
inductive Halt where
  | fault (f : Fault)
  | breach (b : Breach)
  /-- The budget for the depth of the evaluation and the length of loops was too small. -/
  | exhausted
deriving DecidableEq, Repr

end AliasScript
