/-!
# The standard library

The modules whose names start with `std:`. Two of them are written in the language itself; the
bitwise one is an instance with built-in functions in its fields.
-/

namespace AliasScript

namespace Library

/-- Files as objects. -/
def fileSource : String :=
  "class File \x7b
  init(path) \x7b
    this.path = path
  \x7d

  read() \x7b
    return readFile(this.path)
  \x7d

  write(data) \x7b
    return writeFile(this.path, data)
  \x7d

  append(data) \x7b
    return appendFile(this.path, data)
  \x7d
\x7d
"

/-- Random numbers from a linear congruential generator, which starts from the clock. -/
def randomSource : String :=
  "import \"std:Bitwise\"

var _stdRandomSeed = clock()

class Random \x7b
  class seed(number) \x7b
    _stdRandomSeed = number
  \x7d

  class random() \x7b
    _stdRandomSeed = (1103515245 * _stdRandomSeed + 12345) % 2147483648
    return Bitwise.rightShift(_stdRandomSeed, 0)
  \x7d

  class inRange(min, max) \x7b
    return min + round((max - min + 1) * this.random() / 2147483648)
  \x7d
\x7d
"

/-- A module of the standard library. -/
inductive Part where
  /-- A source, with the name that it is run under. -/
  | source (name text : String)
  | bitwise
deriving DecidableEq, Repr

/-- The module with files as objects. -/
def file : Part := .source "std:File" fileSource

/-- The module with random numbers. -/
def random : Part := .source "std:Random" randomSource

/-- The parts that a name stands for, in the order in which they are loaded. -/
def parts? : String → Option (List Part)
  | "File" => some [file]
  | "Random" => some [random]
  | "Bitwise" => some [.bitwise]
  | "all" => some [.bitwise, file, random]
  | _ => none

end Library

end AliasScript
