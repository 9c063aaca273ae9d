import AliasScript.Shell
import Std.Time.DateTime.Timestamp

/-!
# The program

What the shell does is a function of the world that it finds, so files are fetched as runs ask for
them: a run that wanted a file which turns out to exist is made again from where it started.
Written files are saved, and output is shown, when a run is through. At a terminal each line of
the prompt is such a run; otherwise the whole input is read first.
-/

namespace AliasScript

/-- The budget of a run: more than a computer gets through. -/
def hostBudget : Nat := 1000000000000000

/-- The seconds since the start of 1970. -/
def hostTime : IO Float := do
  let now ← Std.Time.Timestamp.now
  return Float.ofInt now.toNanosecondsSinceUnixEpoch.val / 1000000000

/-- The contents of a file of the host. -/
def hostFile? (path : String) : IO (Option ByteArray) := do
  try some <$> IO.FS.readBinFile path
  catch _ => return none

/-- Adds the wanted files that the host has and the world does not know, and tells how many. -/
def fetch (world : World) (wanted : List String) : IO (Nat × World) := do
  let mut found := 0
  let mut world := world
  for path in wanted do
    let place := Files.placeOf path
    if (world.files.get? place).isNone then
      if let some contents ← hostFile? path then
        world := { world with files := world.files.add place contents }
        found := found + 1
  return (found, world)

/-- Saves the files that a run has changed. -/
def save (before after : Files) : IO Unit := do
  for (place, contents) in after.entries do
    if before.get? place != some contents then
      IO.FS.writeBinFile (String.intercalate "/" place) contents

/-- Runs the shell, again if files were wanted that the host has. -/
partial def runFetching (world : World) (arguments : List String) : IO Exit := do
  let exit := Shell.run hostBudget world arguments
  match ← fetch world exit.world.wanted with
  | (0, _) =>
    save world.files exit.world.files
    return exit
  | (_, world) => runFetching world arguments

/-- Runs a source, again if files were wanted that the host has. -/
partial def enterFetching (m : Machine) (source : String) : IO (Outcome × Machine) := do
  let (outcome, after) := m.run hostBudget source
  match ← fetch m.world after.world.wanted with
  | (0, _) =>
    save m.world.files after.world.files
    return (outcome, after)
  | (_, world) => enterFetching { m with world := world } source

/-- The prompt at a terminal. -/
partial def converse (m : Machine) : IO Unit := do
  let console ← IO.getStdout
  console.putStr "> "
  console.flush
  let line ← (← IO.getStdin).getLine
  unless line.isEmpty do
    let (outcome, m) ← enterFetching m (Shell.entry line)
    let (output, m) := m.collectOutput
    console.putStr output
    IO.eprint (Shell.reportLine outcome)
    converse m

/-- Runs the program and gives its exit code. -/
def start (arguments : List String) : IO UInt32 := do
  let stdin ← IO.getStdin
  let world := { World.empty with time := ← hostTime }
  match Request.parse arguments, ← stdin.isTty with
  | .prompt arguments, true =>
    converse (Machine.initial arguments world false)
    return 0
  | _, _ =>
    let world := { world with input := World.linesOf (← stdin.readBinToEnd) }
    let exit ← runFetching world arguments
    IO.print exit.output
    IO.eprint exit.errors
    return exit.code.toUInt32

end AliasScript

/-- The entry point of the program. -/
def main (arguments : List String) : IO UInt32 :=
  AliasScript.start arguments
