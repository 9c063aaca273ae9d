import AliasScript.Fault
import AliasScript.Store.Display
import AliasScript.Store.Equality
import AliasScript.World

/-!
# The machine

The state of a run: the store, the frame that is current, how many calls are active, the distances
of all names resolved so far, the index of the next token, the world outside and the journal of
what happened. An action changes the state and gives a value, or stops. A state is left behind
also when an action stops, so that the machine can go on with another source.
-/

namespace AliasScript

/-! ### Distances of names -/

/-- The distances of the uses of names, by the index of the token. -/
abbrev Distances := Array (Option Nat)

namespace Distances

/-- The distance of a use, if it has one. -/
def find? (d : Distances) (index : Nat) : Option Nat :=
  d[index]?.join

/-- Adds a distance. -/
def insert (d : Distances) (index distance : Nat) : Distances :=
  (d ++ Array.replicate (index + 1 - d.size) none).setIfInBounds index (some distance)

/-- **Adding a distance changes the distance of that use and nothing else.** -/
theorem find?_insert (d : Distances) (index distance other : Nat) :
    (d.insert index distance).find? other =
      if other = index then some distance else d.find? other := by
  unfold find? insert
  rw [Array.getElem?_setIfInBounds]
  by_cases h : index = other
  · subst h
    have : index < d.size + (index + 1 - d.size) := by omega
    simp [this]
  · have h' : ¬ other = index := fun e ↦ h e.symm
    simp only [h, h', if_false, Array.getElem?_append, Array.getElem?_replicate]
    split
    · rfl
    · next hlt =>
      rw [Array.getElem?_eq_none (by omega)]
      split <;> rfl

/-- Adds all distances of a source. -/
def extend (d : Distances) (addresses : List Address) : Distances :=
  addresses.foldl (fun d a ↦ d.insert a.token.index a.distance) d

end Distances

/-! ### The journal -/

/-- Something worth noting. -/
inductive Event where
  | scanned (scan : Scan)
  | parsed (statements : Nat)
  | resolved (addresses : List Address)
  | importing (path : String)
  | running (name : String)
  | calling (name : String) (arguments : Nat)
  | aborted (f : Fault)
deriving DecidableEq, Repr

namespace Event

/-- A line of the journal: how much detail it is, and what happened. -/
def text : Event → String
  | scanned scan => "DEBUG scanned " ++ toString scan.all.length ++ " tokens"
  | parsed statements => "DEBUG parsed " ++ toString statements ++ " statements"
  | resolved addresses => "DEBUG resolved " ++ toString addresses.length ++ " local references"
  | importing path => "DEBUG importing '" ++ path ++ "'"
  | running name => "DEBUG running module '" ++ name ++ "'"
  | calling name arguments =>
    "TRACE calling " ++ name ++ " with " ++ toString arguments ++ " arguments"
  | aborted f => "DEBUG execution aborted: " ++ f.render

end Event

/-- What happened, if anybody wants to know. -/
structure Journal where
  enabled : Bool
  events : Array Event

namespace Journal

/-- Adds an event, if the journal is kept. -/
def note (j : Journal) (e : Event) : Journal :=
  if j.enabled then { j with events := j.events.push e } else j

end Journal

/-! ### State and actions -/

/-- The state of a run. -/
structure Machine where
  store : Store
  /-- The current frame. -/
  here : FrameId
  /-- The number of active calls. -/
  depth : Nat
  distances : Distances
  /-- The index of the next token. -/
  nextIndex : Nat
  world : World
  journal : Journal

/-- An action of the machine. -/
abbrev Run := EStateM Halt Machine

namespace Run

variable {α : Type}

/-- Aborts the run. -/
def fault (token : Token) (cause : FaultCause) : Run α :=
  throw (.fault ⟨token, cause⟩)

/-- Stops in a state that should not be. -/
def breach (b : Breach) : Run α :=
  throw (.breach b)

/-- Stops for lack of budget. -/
def exhausted : Run α :=
  throw .exhausted

/-- Reads something off the state. -/
def read (f : Machine → α) : Run α := fun m ↦
  .ok (f m) m

/-- A value that has to be there. -/
def require (b : Breach) : Option α → Run α
  | some a => pure a
  | none => breach b

/-- Writes into the journal. -/
def note (e : Event) : Run Unit :=
  modify fun m ↦ { m with journal := m.journal.note e }

/-- Acts in another frame, and comes back to the current one whatever happens. -/
def inFrame (f : FrameId) (act : Run α) : Run α := fun m ↦
  let back := m.here
  match act { m with here := f } with
  | .ok a m => .ok a { m with here := back }
  | .error e m => .error e { m with here := back }

/-- Acts inside one more call. -/
def inCall (act : Run α) : Run α := fun m ↦
  match act { m with depth := m.depth + 1 } with
  | .ok a m => .ok a { m with depth := m.depth - 1 }
  | .error e m => .error e { m with depth := m.depth - 1 }

/-- Notes the fault that an action aborts with. -/
def notingFault (act : Run α) : Run α := fun m ↦
  match act m with
  | .error (.fault f) m => .error (.fault f) { m with journal := m.journal.note (.aborted f) }
  | result => result

/-! ### World and store -/

/-- Changes the world. -/
def changeWorld (f : World → World) : Run Unit :=
  modify fun m ↦ { m with world := f m.world }

/-- Changes the world and gives what the change gives. -/
def onWorld (f : World → α × World) : Run α :=
  modifyGet fun m ↦
    let (a, world) := f m.world
    (a, { m with world := world })

/-- Changes the store and gives what the change gives. -/
def onStore (f : Store → α × Store) : Run α :=
  modifyGet fun m ↦
    let (a, store) := f m.store
    (a, { m with store := store })

/-- Changes the store. -/
def changeStore (f : Store → Store) : Run Unit :=
  modify fun m ↦ { m with store := f m.store }

/-- Binds a name in a frame. -/
def define (f : FrameId) (name : String) (value : Value) : Run Unit :=
  changeStore fun s ↦ { s with frames := s.frames.define f name value }

/-- Makes a frame inside another, with some names in it. -/
def newFrame (parent : FrameId) (bindings : Bindings Value) : Run FrameId :=
  onStore (·.addFrame parent bindings)

/-- Makes an array. -/
def newArray (elements : Array Value) : Run Value :=
  onStore (·.addArray elements)

/-- Makes a function. -/
def newClosure (closure : Closure) : Run Value :=
  onStore (·.addClosure closure)

/-- The text of a value. -/
def text (v : Value) : Run String :=
  read fun m ↦ m.store.text v

/-- The elements of an array. -/
def elements (id : Nat) : Run (Array Value) := do
  require .dangling (← read fun m ↦ m.store.arrays[id]?)

/-- Changes the elements of an array. -/
def changeArray (id : Nat) (f : Array Value → Array Value) : Run Unit :=
  changeStore fun s ↦ { s with arrays := s.arrays.modify id f }

/-! ### Variables -/

/-- The frame that binds a name: the one at the distance of this use, or the global one if the use
has no distance. -/
def binder? (name : Token) : Run (Option FrameId) :=
  read fun m ↦
    match m.distances.find? name.index with
    | some distance => m.store.frames.binderAt? m.here distance name.lexeme
    | none => m.store.frames.find? Store.globals name.lexeme

/-- The value of a name, without following an alias. -/
def lookup (name : Token) : Run Value := do
  let binder ← binder? name
  match ← read fun m ↦ binder.bind (m.store.frames.valueIn · name.lexeme) with
  | some v => return v
  | none => fault name (.undefinedVariable name.lexeme)

/-- Overwrites the value of a name, even if it is an alias. -/
def overwrite (name : Token) (value : Value) : Run Unit := do
  match ← binder? name with
  | some f => define f name.lexeme value
  | none => fault name (.undefinedVariable name.lexeme)

end Run

end AliasScript
