import AliasScript.World.Files

/-!
# The world around a program

What a program can reach outside of its own values: lines to read, text to write, files and the
time.
-/

namespace AliasScript

/-- The world as a program finds it. -/
structure World where
  /-- The lines still to be read, each with its line end. A line that is no text cannot be read, but
  takes its turn. -/
  input : List (Option String)
  /-- The text written since the last time it was collected. -/
  output : String
  /-- The number of bytes written in all. -/
  written : Nat
  /-- The number of bytes that may be written in all, if there is a bound. -/
  capacity : Option Nat
  files : Files
  /-- The paths that were asked for and that name no file, so that whoever knows more files can tell
  which of them matter. -/
  wanted : List String
  /-- The seconds since the start of 1970. -/
  time : Float

namespace World

/-- A world with nothing in it. -/
def empty : World :=
  ⟨[], "", 0, none, ⟨[]⟩, [], 1.0⟩

variable (w : World)

/-- Whether a text may still be written. -/
def accepts (text : String) : Bool :=
  !w.capacity.any (· < w.written + text.utf8ByteSize)

/-- Writes text. -/
def write (text : String) : World :=
  { w with output := w.output ++ text, written := w.written + text.utf8ByteSize }

/-- The next line, if there is one. -/
def readLine : Option (Option String) × World :=
  match w.input with
  | [] => (none, w)
  | line :: rest => (some line, { w with input := rest })

/-- Notes that a path was asked for. -/
def want (path : String) : World :=
  if w.wanted.contains path then w else { w with wanted := path :: w.wanted }

/-- The contents of the file that a path names. -/
def readFile (path : String) : Except PathError ByteArray × World :=
  match w.files.read path with
  | .ok contents => (.ok contents, w)
  | .error e => (.error e, w.want path)

/-- The text of the file that a path names, if it is one and is text. -/
def readText (path : String) : Option String × World :=
  match w.readFile path with
  | (.ok contents, w) => (String.fromUTF8? contents, w)
  | (.error _, w) => (none, w)

/-- Makes a file, or replaces its contents; tells whether that was possible. -/
def writeFile (path text : String) : Bool × World :=
  match w.files.write path text.toUTF8 with
  | .ok files => (true, { w with files := files })
  | .error _ => (false, w)

/-- Makes a file, or adds to its contents; tells whether that was possible. -/
def appendFile (path text : String) : Bool × World :=
  let w := (w.readFile path).2
  match w.files.append path text.toUTF8 with
  | .ok files => (true, { w with files := files })
  | .error _ => (false, w)

/-- The line feed, as a byte. -/
def lineFeed : UInt8 := 10

/-- The lines of some bytes, where `line` holds the bytes of the current line, last byte first. -/
def linesFrom (line : List UInt8) : List UInt8 → List (Option String)
  | [] => if line.isEmpty then [] else [String.fromUTF8? ⟨line.reverse.toArray⟩]
  | b :: rest =>
    if b == lineFeed then String.fromUTF8? ⟨(b :: line).reverse.toArray⟩ :: linesFrom [] rest
    else linesFrom (b :: line) rest

/-- Bytes as lines, each with its line end. -/
def linesOf (bytes : ByteArray) : List (Option String) :=
  linesFrom [] bytes.data.toList

end World

end AliasScript
