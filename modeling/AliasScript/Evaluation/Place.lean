import AliasScript.Evaluation.Call

/-!
# Properties, elements and variables

Reading and changing the places that a program can name. A store into a variable that holds an alias
goes where the alias leads.
-/

namespace AliasScript

namespace Evaluator

variable (r : Evaluator)

/-! ### Properties and elements -/

/-- The method as a value, or its result if it is a getter. -/
def methodValue (name : Token) (method : Closure) : Run Value :=
  if method.declaration.isGetter then invoke r name (.function method) []
  else Run.newClosure method

/-- What comes of a method that was looked for: it is bound to the receiver, and if it is a getter
it is called; if there is none, the name is undefined. -/
def bindFound (found : Option Closure) (name : Token) (receiver : Value) (isInitializer : Bool) :
    Run Value :=
  match found with
  | some method => do methodValue r name (← bindMethod method receiver isInitializer)
  | none => Run.fault name (.undefinedProperty name.lexeme)

/-- A field as a value, or its result if it is a getter. -/
def fieldValue (name : Token) (field : Value) : Run Value := do
  match ← Run.read fun m ↦ m.store.getter? field with
  | some getter => invoke r name (.function getter) []
  | none => return field

/-- A field if there is one, else a method bound to the value. -/
def fieldOrMethod (v : Value) (name : Token) (field : Option Value) (method : Option Closure)
    (isInitializer : Bool) : Run Value :=
  match field with
  | some field => fieldValue r name field
  | none => bindFound r method name v isInitializer

/-- A property of a value. Only a method of an instance can be an initializer. -/
def property (v : Value) (name : Token) : Run Value :=
  match v with
  | .object id => do
    let object ← Run.require .dangling (← Run.read (·.store.objects[id]?))
    let method ← Run.read fun m ↦ m.store.findMethod object.classId name.lexeme
    fieldOrMethod r v name (object.fields.get? name.lexeme) method (name.lexeme == "init")
  | .classValue id => do
    let c ← Run.require .dangling (← Run.read (·.store.classes[id]?))
    let method ← Run.read fun m ↦ m.store.findClassMethod id name.lexeme
    fieldOrMethod r v name (c.fields.get? name.lexeme) method false
  | _ => Run.fault name .noProperties

/-- Sets a field of an instance or of a class. -/
def setProperty (v : Value) (name : Token) (value : Value) : Run Unit :=
  match v with
  | .object id =>
    Run.changeStore fun s ↦
      { s with objects := s.objects.modify id fun object ↦
          { object with fields := object.fields.insert name.lexeme value } }
  | .classValue id =>
    Run.changeStore fun s ↦
      { s with classes := s.classes.modify id fun c ↦
          { c with fields := c.fields.insert name.lexeme value } }
  | _ => Run.fault name .noFields

/-- The place of an element in an array. -/
def position (bracket : Token) (v index : Value) : Run (Nat × Nat) := do
  match v with
  | .array id =>
    let size := (← Run.elements id).size
    match index with
    | .num x =>
      match Number.position? x size with
      | some i => return (id, i)
      | none => Run.fault bracket .indexOutOfRange
    | _ => Run.fault bracket .indexNotNumber
  | _ => Run.fault bracket .notSubscriptable

/-- The element that a subscript names. -/
def element (bracket : Token) (v index : Value) : Run Value := do
  let (id, i) ← position bracket v index
  Run.require .dangling (← Run.elements id)[i]?

/-- Changes the element that a subscript names. -/
def setElement (bracket : Token) (v index value : Value) : Run Unit := do
  let (id, i) ← position bracket v index
  Run.changeArray id (·.setIfInBounds i value)

/-! ### Variables -/

/-- Stores a value in a variable. If the variable holds an alias, the value goes where the alias
leads, through so many references at most. -/
def storeWithin : Nat → Token → Value → Run Unit
  | hops, name, value => do
    match ← Run.lookup name with
    | .reference id =>
      let ref ← Run.require .dangling (← Run.read (·.store.references[id]?))
      match hops with
      | 0 => Run.fault ref.operator .referenceCycle
      | hops + 1 =>
        Run.inFrame ref.frame <|
          match ref.target with
          | .variable target => storeWithin hops target value
          | .get object field => do setProperty (← evaluate r object) field value
          | .subscript object bracket index => do
            let v ← evaluate r object
            let i ← evaluate r index
            setElement bracket v i value
          | _ => Run.breach .referenceTarget
    | _ => Run.overwrite name value

/-- Stores a value in a variable. -/
def store (name : Token) (value : Value) : Run Unit :=
  storeWithin r maxHops name value

end Evaluator

end AliasScript
