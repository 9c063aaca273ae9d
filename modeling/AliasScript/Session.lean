import AliasScript.Evaluation

/-!
# Sessions

A machine runs sources one after the other. Names, values, files and whatever else there is stay
from one source to the next, also after an error.
-/

namespace AliasScript

/-- How a source ended. -/
inductive Outcome where
  | completed
  /-- The source is wrong and was not run. -/
  | rejected (errors : List Diagnostic)
  /-- The run was aborted. -/
  | aborted (f : Fault)
  | breached (b : Breach)
  | exhausted
deriving DecidableEq, Repr

namespace Store

/-- Makes the built-in functions and binds their names. -/
def withBuiltins (s : Store) : Store :=
  Builtin.globals.foldl (fun s b ↦
    let (v, s) := s.addBuiltin b
    { s with frames := s.frames.define globals b.name v }) s

/-- Makes the array of the arguments of the program and binds its name. -/
def withArguments (s : Store) (arguments : List String) : Store :=
  let (v, s) := s.addArray (arguments.map Value.str).toArray
  { s with frames := s.frames.define globals "argv" v }

end Store

namespace Machine

/-- A machine that has run nothing yet. -/
def initial (arguments : List String) (world : World) (tracing : Bool) : Machine where
  store := (Store.initial.withBuiltins).withArguments arguments
  here := Store.globals
  depth := 0
  distances := #[]
  nextIndex := 0
  world := world
  journal := ⟨tracing, #[]⟩

/-- Runs a source on a budget. -/
def run (budget : Nat) (m : Machine) (source : String) : Outcome × Machine :=
  match (evaluatorOf budget).runSource source m with
  | .ok (.ok ()) m => (.completed, m)
  | .ok (.error errors) m => (.rejected errors, m)
  | .error (.fault f) m => (.aborted f, m)
  | .error (.breach b) m => (.breached b, m)
  | .error .exhausted m => (.exhausted, m)

/-- Takes the text written so far out of the machine. -/
def collectOutput (m : Machine) : String × Machine :=
  (m.world.output, { m with world := { m.world with output := "" } })

/-- Takes the events noted so far out of the machine. -/
def collectEvents (m : Machine) : List Event × Machine :=
  (m.journal.events.toList, { m with journal := { m.journal with events := #[] } })

end Machine

end AliasScript
