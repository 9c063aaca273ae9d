/-!
# Files

The files that a program can reach. A path is a list of names between slashes; an empty name and a
single dot stay where they are, and two dots go up. Places are named from the working directory, or
from the root if the path starts there. A directory is there because some file is below it; the
working directory, the directories around it and the root are there in any case.
-/

namespace AliasScript

/-- Files by their places: the names that lead to them from the working directory. Places outside
of it start with two dots, and places that are named from the root with a slash. -/
structure Files where
  entries : List (List String × ByteArray)

/-- Why a path names no file. -/
inductive PathError where
  | missing
  | directory
  | notDirectory
  | nameTooLong
  | badName
deriving DecidableEq, Repr

namespace Files

variable (fs : Files)

/-- The contents of the file at a place. -/
def get? (place : List String) : Option ByteArray :=
  fs.entries.lookup place

/-- The working directory, a directory around it, or the root. -/
def isBase (place : List String) : Bool :=
  place.all (· == "..") || place == ["/"]

/-- The place is a base, or a file is below it. -/
def isDirectory (place : List String) : Bool :=
  isBase place || fs.entries.any fun entry ↦
    place.length < entry.1.length && place.isPrefixOf entry.1

/-- Steps have to start in a directory. -/
def requireDirectory (place : List String) : Except PathError Unit :=
  if fs.isDirectory place then .ok ()
  else if (fs.get? place).isSome then .error .notDirectory
  else .error .missing

/-- The most bytes that a name may have. -/
def maxNameSize : Nat := 255

/-- The most bytes that a path may have. -/
def maxPathSize : Nat := 4095

/-- The place where a name leads from a place. There is nothing above the root. -/
def step (place : List String) (name : String) : List String :=
  if name == "" || name == "." then place
  else if name == ".." then
    if place == ["/"] then place
    else if isBase place then place ++ [".."]
    else place.dropLast
  else place ++ [name]

/-- Where a path starts. -/
def origin (path : String) : List String :=
  if path.startsWith "/" then ["/"] else []

/-- The place that a path names, whether there is anything or not. -/
def placeOf (path : String) : List String :=
  (path.splitOn "/").foldl step (origin path)

/-- Goes from a place along names. What the last name names need not exist. -/
def walk (place : List String) : List String → Except PathError (List String)
  | [] => .ok place
  | name :: rest => do
    fs.requireDirectory place
    if maxNameSize < name.utf8ByteSize then .error .nameTooLong
    else walk (step place name) rest

/-- The place that a path names. -/
def locate (path : String) : Except PathError (List String) :=
  if path.isEmpty then .error .missing
  else if path.contains '\x00' then .error .badName
  else if maxPathSize < path.utf8ByteSize then .error .nameTooLong
  else fs.walk (origin path) (path.splitOn "/")

/-- The files below the working directory. -/
def nearby : List (List String × ByteArray) :=
  fs.entries.filter fun entry ↦ entry.1.head? != some ".." && entry.1.head? != some "/"

/-- The place of a file: anything but a directory. -/
def locateFile (path : String) : Except PathError (List String) := do
  let place ← fs.locate path
  if fs.isDirectory place then .error .directory else .ok place

/-- The contents of the file that a path names. -/
def read (path : String) : Except PathError ByteArray := do
  let place ← fs.locateFile path
  match fs.get? place with
  | some contents => .ok contents
  | none => .error .missing

/-- The file at a place with new contents; other files stay as they are. -/
def insert : List (List String × ByteArray) → List String → ByteArray →
    List (List String × ByteArray)
  | [], place, contents => [(place, contents)]
  | (place', contents') :: rest, place, contents =>
    if place == place' then (place, contents) :: rest
    else (place', contents') :: insert rest place contents

/-- Adds a file without looking at directories. -/
def add (place : List String) (contents : ByteArray) : Files :=
  ⟨insert fs.entries place contents⟩

/-- Makes a file, or replaces its contents. -/
def write (path : String) (contents : ByteArray) : Except PathError Files := do
  return fs.add (← fs.locateFile path) contents

/-- Makes a file, or adds to its contents. -/
def append (path : String) (contents : ByteArray) : Except PathError Files := do
  let place ← fs.locateFile path
  return fs.add place ((fs.get? place).getD .empty ++ contents)

end Files

end AliasScript
