import AliasScript.Builtin
import AliasScript.Number.Decimal
import AliasScript.Store.Frames

/-!
# The store

All frames, arrays, functions, classes, instances and references that a run has made. Each sort is
numbered on its own, in the order of creation, and nothing is ever removed: a superclass has a
smaller number than the classes below it, and a frame a larger one than the frame around it.
-/

namespace AliasScript

/-- A function together with the frame that it was made in. -/
structure Closure where
  declaration : Function
  frame : FrameId
  /-- An initializer that is bound to an instance yields the instance. -/
  isInitializer : Bool

/-- A class. Its class methods are the methods of its metaclass, which extends the metaclass of the
superclass, so that both kinds of methods are inherited in one way. -/
structure ClassObject where
  name : String
  superclass : Option ClassId
  methods : Bindings Closure
  metaclass : Option ClassId
  fields : Bindings Value

/-- An instance of a class. -/
structure Object where
  classId : ClassId
  fields : Bindings Value
deriving DecidableEq, Repr, Inhabited

/-- An alias: an expression that names a place, and the frame in which it is read. -/
structure Reference where
  operator : Token
  target : Expr
  frame : FrameId

/-- Everything that a run has made. -/
structure Store where
  frames : Frames
  arrays : Array (Array Value)
  closures : Array Closure
  classes : Array ClassObject
  objects : Array Object
  references : Array Reference
  builtins : Array Builtin

namespace Store

/-- The frame of the global names. -/
def globals : FrameId := 0

variable (s : Store)

/-- A store with one frame, which binds nothing. -/
def initial : Store :=
  ⟨#[⟨none, []⟩], #[], #[], #[], #[], #[], #[]⟩

/-! ### Making things -/

/-- A frame inside another, with some names in it. -/
def addFrame (parent : FrameId) (bindings : Bindings Value) : FrameId × Store :=
  (s.frames.size, { s with frames := s.frames.push ⟨some parent, bindings⟩ })

/-- An array with some elements. -/
def addArray (elements : Array Value) : Value × Store :=
  (.array s.arrays.size, { s with arrays := s.arrays.push elements })

/-- A function. -/
def addClosure (closure : Closure) : Value × Store :=
  (.function s.closures.size, { s with closures := s.closures.push closure })

/-- A class. -/
def addClass (c : ClassObject) : ClassId × Store :=
  (s.classes.size, { s with classes := s.classes.push c })

/-- An instance. -/
def addObject (object : Object) : Nat × Store :=
  (s.objects.size, { s with objects := s.objects.push object })

/-- An alias. -/
def addReference (r : Reference) : Value × Store :=
  (.reference s.references.size, { s with references := s.references.push r })

/-- A built-in function, which differs from all others made before. -/
def addBuiltin (b : Builtin) : Value × Store :=
  (.builtin s.builtins.size, { s with builtins := s.builtins.push b })

/-! ### Declared classes -/

/-- The methods of a class by their names. Of several with one name the last counts. -/
def methodTable (frame : FrameId) (methods : List Function) : Bindings Closure :=
  .ofPairs (methods.filterMap fun f ↦
    f.name.map fun name ↦ (name.lexeme, ⟨f, frame, false⟩))

/-- The frame that the methods of a class are made in. If the class has a superclass, it is a frame
of its own, in which they see it as `super`. -/
def addClassFrame (outer : FrameId) : Option ClassId → FrameId × Store
  | some superclass => s.addFrame outer [("super", .classValue superclass)]
  | none => (outer, s)

/-- A class and its metaclass, with all methods made in one frame. -/
def addDeclared (outer : FrameId) (name : String) (superclass : Option ClassId)
    (methods classMethods : List Function) : ClassId × Store :=
  let superMeta := superclass.bind fun id ↦ s.classes[id]?.bind ClassObject.metaclass
  let (frame, s) := s.addClassFrame outer superclass
  let (metaclass, s) := s.addClass
    ⟨name ++ " metaclass", superMeta, methodTable frame classMethods, none, []⟩
  s.addClass ⟨name, superclass, methodTable frame methods, some metaclass, []⟩

/-! ### Methods -/

/-- The nearest method of a name, among so many classes upward. -/
def findMethodWithin (name : String) : Nat → ClassId → Option Closure
  | 0, _ => none
  | n + 1, id =>
    match s.classes[id]? with
    | none => none
    | some c => (c.methods.get? name).or (c.superclass.bind (findMethodWithin name n))

/-- The method of a name in the nearest class that declares it, from a class upward. A chain of
classes is no longer than there are classes. -/
def findMethod (id : ClassId) (name : String) : Option Closure :=
  s.findMethodWithin name s.classes.size id

/-- The class method of a name, from a class upward. -/
def findClassMethod (id : ClassId) (name : String) : Option Closure :=
  (s.classes[id]?.bind ClassObject.metaclass).bind (s.findMethod · name)

/-! ### What can be called -/

end Store

/-- Something that can be called. -/
inductive Callee where
  | function (closure : Closure)
  | construct (id : ClassId) (c : ClassObject)
  | builtin (b : Builtin)

namespace Store

variable (s : Store)

/-- What a value is when it is called. -/
def callee? : Value → Option Callee
  | .function id => s.closures[id]?.map .function
  | .classValue id => s.classes[id]?.map (.construct id)
  | .builtin id => s.builtins[id]?.map .builtin
  | _ => none

/-- The function that a value is, if it is one that is called when it is looked up. -/
def getter? : Value → Option Closure
  | .function id => s.closures[id]?.filter (·.declaration.isGetter)
  | _ => none

/-- The name under which a call is noted. -/
def calleeName : Callee → String
  | .function closure => closure.declaration.name.elim "anonymous" Token.lexeme
  | .construct _ c => c.name
  | .builtin b => b.name

/-- The number of arguments that a call has to bring. A class takes those of its initializer. -/
def calleeArity : Callee → Nat
  | .function closure => closure.declaration.arity
  | .construct id _ => (s.findMethod id "init").elim 0 (·.declaration.arity)
  | .builtin b => b.arity

end Store

end AliasScript
