import AliasScript.Machine

/-!
# Operators

What the operators do with the values of their operands. Adding to an array changes the array;
subtracting from one makes a new array.
-/

namespace AliasScript

namespace Evaluator

/-- A result that two numbers have. -/
def onNumbers (operator : Token) (left right : Value) (f : Float → Float → Run Value) :
    Run Value :=
  match left, right with
  | .num x, .num y => f x y
  | _, _ => Run.fault operator .operandsNotNumbers

/-- Adds numbers, joins strings, and appends an element to an array, which is changed. -/
def sum (operator : Token) : Value → Value → Run Value
  | .num x, .num y => return .num (x + y)
  | .str a, .str b => return .str (a ++ b)
  | .array id, v => do
    Run.changeArray id (·.push v)
    return .array id
  | _, _ => Run.fault operator .sumOperands

/-- Subtracts numbers, and gives an array without its last elements as a new array. -/
def difference (operator : Token) : Value → Value → Run Value
  | .num x, .num y => return .num (x - y)
  | .array id, .num count => do
    let elements ← Run.elements id
    match Number.removal? count elements.size with
    | some n => Run.newArray (elements.extract 0 (elements.size - n))
    | none => Run.fault operator (.removal count elements.size)
  | _, _ => Run.fault operator .differenceOperands

/-- Applies a binary operator. -/
def binary (operator : Token) (left right : Value) : Run Value :=
  match operator.kind with
  | .comma => return right
  | .plus => sum operator left right
  | .minus => difference operator left right
  | .star => onNumbers operator left right fun x y ↦ return .num (x * y)
  | .slash => onNumbers operator left right fun x y ↦
    if y == 0 then Run.fault operator .divisionByZero else return .num (x / y)
  | .percent => onNumbers operator left right fun x y ↦ return .num (Number.remainder x y)
  | .greater => onNumbers operator left right fun x y ↦ return .bool (x > y)
  | .greaterEqual => onNumbers operator left right fun x y ↦ return .bool (x ≥ y)
  | .less => onNumbers operator left right fun x y ↦ return .bool (x < y)
  | .lessEqual => onNumbers operator left right fun x y ↦ return .bool (x ≤ y)
  | .equalEqual => return .bool (← Run.read (·.store.equal left right))
  | .bangEqual => return .bool (!(← Run.read (·.store.equal left right)))
  | _ => Run.breach .operator

/-- Applies a prefix operator. -/
def unary (operator : Token) (v : Value) : Run Value :=
  match operator.kind, v with
  | .minus, .num x => return .num (-x)
  | .minus, _ => Run.fault operator .operandNotNumber
  | .bang, v => return .bool (!v.isTruthy)
  | _, _ => Run.breach .operator

end Evaluator

end AliasScript
