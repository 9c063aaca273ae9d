import AliasScript.Machine
import AliasScript.Text.Blank

/-!
# Calling built-in functions

What the built-in functions do with their arguments. The token is the one at which a fault is
reported.
-/

namespace AliasScript

namespace Builtin

/-- Writes text to the console, all of it or nothing. -/
def writeOut (paren : Token) (text : String) : Run Value := do
  if ← Run.read fun m ↦ m.world.accepts text then
    Run.changeWorld (·.write text)
    return .nil
  else Run.fault paren .outputFull

/-- The next line without its end; nothing at the end of the input and for a line that is no text.
-/
def readIn : Run Value := do
  match ← Run.onWorld (·.readLine) with
  | some (some text) => return .str (String.ofList (Text.dropLineEnd text.toList))
  | _ => return .nil

/-- The time, which goes on a little whenever it is read. -/
def readClock : Run Value :=
  Run.onWorld fun w ↦ (.num w.time, { w with time := w.time + 0.000001 })

/-- The number of characters of a string or of elements of an array. -/
def lengthOf : Value → Run Value
  | .str text => return .num (Float.ofNat text.length)
  | .array id => return .num (Float.ofNat (← Run.elements id).size)
  | _ => return .nil

/-- A shift of one 32-bit word by another. -/
def shifted (paren : Token) (shift : Int → Int → Int) : Value → Value → Run Value
  | .num value, .num amount =>
    return .num (Float.ofInt (shift (Number.word value) (Number.word amount)))
  | _, _ => Run.fault paren .operandsNotNumbers

/-- Calls a built-in function. -/
def call (paren : Token) : Builtin → List Value → Run Value
  | print, [v] => do writeOut paren ((← Run.text v) ++ "\n")
  | put, [v] => do writeOut paren (← Run.text v)
  | input, [] => readIn
  | clock, [] => readClock
  | str, [v] => return .str (← Run.text v)
  | num, [v] => do
    match Number.read? (Text.trimSpace (← Run.text v).toList) with
    | some x => return .num x
    | none => return .nil
  | round, [.num x] => return .num (Number.trunc x)
  | round, [_] => Run.fault paren .roundArgument
  | len, [v] => lengthOf v
  | readFile, [path] => do
    let path ← Run.text path
    match ← Run.onWorld (·.readText path) with
    | some text => return .str text
    | none => return .nil
  | writeFile, [path, data] => do
    let path ← Run.text path
    let data ← Run.text data
    return .bool (← Run.onWorld (·.writeFile path data))
  | appendFile, [path, data] => do
    let path ← Run.text path
    let data ← Run.text data
    return .bool (← Run.onWorld (·.appendFile path data))
  | leftShift, [value, amount] => shifted paren Number.shiftLeft value amount
  | rightShift, [value, amount] => shifted paren Number.shiftRight value amount
  | _, _ => Run.breach .argumentCount

end Builtin

end AliasScript
