/-!
# Built-in functions

The functions that every program finds in its outermost frame, and the two that the bitwise library
adds.
-/

namespace AliasScript

/-- The built-in functions. -/
inductive Builtin where
  | print | put | input | clock | str | num | round | len
  | readFile | writeFile | appendFile
  | leftShift | rightShift
deriving DecidableEq, Repr, Inhabited

namespace Builtin

/-- The name that the function is bound to. -/
def name : Builtin → String
  | print => "print"
  | put => "put"
  | input => "input"
  | clock => "clock"
  | str => "str"
  | num => "num"
  | round => "round"
  | len => "len"
  | readFile => "readFile"
  | writeFile => "writeFile"
  | appendFile => "appendFile"
  | leftShift => "leftShift"
  | rightShift => "rightShift"

/-- The number of arguments. -/
def arity : Builtin → Nat
  | input | clock => 0
  | print | put | str | num | round | len | readFile => 1
  | writeFile | appendFile | leftShift | rightShift => 2

/-- The functions of the outermost frame. -/
def globals : List Builtin :=
  [print, put, input, clock, str, num, round, len, readFile, writeFile, appendFile]

end Builtin

end AliasScript
