import AliasScript.Evaluation.Alias
import AliasScript.Library

/-!
# Sources and modules

A source is scanned, parsed and resolved, and if nothing is wrong with it, its statements are
executed. A module is a source that a running program imports; it is run among the globals.
-/

namespace AliasScript

namespace Evaluator

variable (r : Evaluator)

/-- Makes a program of a source, if nothing is wrong with it. The tokens take their indices in any
case. -/
def load (source : String) : Run (Except (List Diagnostic) Resolved) := do
  let scan := Scan.ofSource (← Run.read (·.nextIndex)) source
  modify fun m ↦ { m with nextIndex := scan.nextIndex }
  Run.note (.scanned scan)
  match scan.program? with
  | .error errors => return .error errors
  | .ok program =>
    Run.note (.parsed program.length)
    match program.resolve with
    | .error errors => return .error errors
    | .ok resolved =>
      Run.note (.resolved resolved.addresses)
      return .ok resolved

/-- Executes the statements of a source. -/
def executeTop : List Stmt → Run Unit
  | [] => return
  | s :: rest => do
    match ← r.execute s with
    | .normal => executeTop rest
    | .returned _ => Run.breach .strayReturn

/-- Runs a source, and gives what is wrong with it if it cannot be run. -/
def runSource (source : String) : Run (Except (List Diagnostic) Unit) := do
  match ← load source with
  | .error errors => return .error errors
  | .ok resolved =>
    modify fun m ↦ { m with distances := m.distances.extend resolved.addresses }
    Run.notingFault (executeTop r resolved.program)
    return .ok ()

/-- Runs a module among the globals. -/
def runModule (keyword : Token) (name source : String) : Run Unit := do
  Run.note (.running name)
  match ← Run.inFrame Store.globals (runSource r source) with
  | .ok () => return
  | .error errors => Run.fault keyword (.moduleRejected name errors)

/-- Makes the instance that holds the shifts. -/
def bitwise : Run Value := do
  let classId ← Run.onStore (·.addClass ⟨"Bitwise", none, [], none, []⟩)
  let left ← Run.onStore (·.addBuiltin .leftShift)
  let right ← Run.onStore (·.addBuiltin .rightShift)
  let object ← Run.onStore
    (·.addObject ⟨classId, [(Builtin.leftShift.name, left), (Builtin.rightShift.name, right)]⟩)
  return .object object

/-- Loads a part of the standard library. -/
def loadPart (keyword : Token) : Library.Part → Run Unit
  | .source name text => runModule r keyword name text
  | .bitwise => do Run.define Store.globals "Bitwise" (← bitwise)

/-- Loads parts of the standard library one after the other. -/
def loadParts (keyword : Token) : List Library.Part → Run Unit
  | [] => return
  | part :: rest => do
    loadPart r keyword part
    loadParts keyword rest

/-- What precedes the names of standard modules. -/
def standardMark : List Char := ['s', 't', 'd', ':']

/-- Imports a module: one of the standard library, or a file. -/
def importPath (keyword : Token) (path : String) : Run Unit := do
  Run.note (.importing path)
  if standardMark.isPrefixOf path.toList then
    let name := String.ofList (path.toList.drop standardMark.length)
    match Library.parts? name with
    | some parts => loadParts r keyword parts
    | none => Run.fault keyword (.moduleUnknown name)
  else
    match ← Run.onWorld (·.readText path) with
    | some source => runModule r keyword path source
    | none => Run.fault keyword (.moduleUnreadable path)

end Evaluator

end AliasScript
