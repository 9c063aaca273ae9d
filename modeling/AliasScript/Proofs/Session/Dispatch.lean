import AliasScript.Proofs.Session.History

/-!
# Dispatch of methods

Which method a property or a `super` selects is said by the class declarations alone: the last
declaration of the name in the nearest class of a line. For an instance the line is that of its
class, and for a class its own, and the method is bound to the instance or the class that was asked.
For `super` it is the line of the superclass of the class that the use stands in, whatever the class
of the receiver is, and the method is bound to the receiver of the enclosing method.

`Machine.Dispatches` says this of a class in a state, `Machine.DispatchesSuper` of a use of `super`.
Every class that a statement has declared keeps its line, so both hold in every state of a history
(`dispatching`).
-/

namespace AliasScript

namespace Evaluator

variable (r : Evaluator) {m : Machine}

/-- An instance without a field of the name is asked for a method. -/
theorem property_object {id : Nat} {object : Object} {name : Token}
    (hobject : m.store.objects[id]? = some object)
    (hfield : object.fields.get? name.lexeme = none) :
    r.property (.object id) name m =
      r.bindFound (m.store.findMethod object.classId name.lexeme) name (.object id)
        (name.lexeme == "init") m := by
  simp only [property, bind, EStateM.bind, Run.read, hobject, Run.require, pure, EStateM.pure,
    fieldOrMethod, hfield]

/-- A class without a field of the name is asked for a class method. -/
theorem property_classValue {id : ClassId} {c : ClassObject} {name : Token}
    (hclass : m.store.classes[id]? = some c) (hfield : c.fields.get? name.lexeme = none) :
    r.property (.classValue id) name m =
      r.bindFound (m.store.findClassMethod id name.lexeme) name (.classValue id) false m := by
  simp only [property, bind, EStateM.bind, Run.read, hclass, Run.require, pure, EStateM.pure,
    fieldOrMethod, hfield]

end Evaluator

/-! ### Methods that are bound -/

namespace Machine

variable (m : Machine) (method : Closure) (receiver : Value)

/-- The method when it is bound to a receiver in the next frame. -/
def boundMethod (isInitializer : Bool) : Closure :=
  ⟨method.declaration, m.store.frames.size, isInitializer⟩

/-- The machine when the method is bound to a receiver. -/
def bindTo : Machine :=
  { m with store := (m.store.addFrame method.frame [("this", receiver)]).2 }

theorem valueIn_bindTo :
    (m.bindTo method receiver).store.frames.valueIn m.store.frames.size "this" = some receiver :=
  Frames.valueIn_push_self _ _ _

end Machine

/-- **The function is the method, bound to the receiver**: it has the same declaration, and a new
frame that lies in the frame of the method and binds `this` to the receiver and no other name. -/
structure Closure.IsBound (c method : Closure) (receiver : Value) (fs fs' : Frames) : Prop where
  declaration : c.declaration = method.declaration
  fresh : fs.size ≤ c.frame
  inside : fs'.parent? c.frame = some method.frame
  binds : ∀ x, fs'.valueIn c.frame x = if x = "this" then some receiver else none

/-- **What is given for a method that was looked for.** The method that was found is bound to the
receiver and marked. As a function it is the value; if it is a getter, the value is what calling it
gives. If none was found, the name is undefined. -/
structure Machine.Gives (m : Machine) (r : Evaluator) (found : Option Closure) (name : Token)
    (receiver : Value) (isInitializer : Bool) (act : Run Value) : Prop where
  bound : act m = r.bindFound found name receiver isInitializer m
  function : ∀ method, found = some method → method.declaration.isGetter = false →
    ∃ id m' c, act m = .ok (.function id) m' ∧ m'.store.closures[id]? = some c ∧
      c.isInitializer = isInitializer ∧ c.IsBound method receiver m.store.frames m'.store.frames
  getter : ∀ method, found = some method → method.declaration.isGetter = true →
    ∃ c m', act m = r.invoke name (.function c) [] m' ∧ c.isInitializer = isInitializer ∧
      c.IsBound method receiver m.store.frames m'.store.frames
  undefined : found = none → act m = .error (.fault ⟨name, .undefinedProperty name.lexeme⟩) m

/-- The frame in which a method is bound knows its receiver and is inside of that of the method. -/
theorem Machine.isBound (m : Machine) (method : Closure) (receiver : Value) (isInitializer : Bool) :
    (m.boundMethod method isInitializer).IsBound method receiver m.store.frames
      (m.bindTo method receiver).store.frames where
  declaration := rfl
  fresh := Nat.le_refl _
  inside := Frames.parent?_push_self _ _
  binds x := by
    show Frames.valueIn (m.store.frames.push _) m.store.frames.size x = _
    rw [Frames.valueIn_push_self]
    by_cases hx : x = "this"
    · subst hx
      rfl
    · simp [Bindings.get?, hx]

theorem Machine.gives {m : Machine} {r : Evaluator} {found : Option Closure} {name : Token}
    {receiver : Value} {isInitializer : Bool} {act : Run Value}
    (h : act m = r.bindFound found name receiver isInitializer m) :
    m.Gives r found name receiver isInitializer act where
  bound := h
  function := by
    rintro method rfl hgetter
    refine ⟨m.store.closures.size,
      { m.bindTo method receiver with
        store := ((m.bindTo method receiver).store.addClosure
          (m.boundMethod method isInitializer)).2 },
      m.boundMethod method isInitializer, h.trans ?_, ?_, rfl,
      m.isBound method receiver isInitializer⟩
    · show r.methodValue name (m.boundMethod method isInitializer) (m.bindTo method receiver) = _
      rw [Evaluator.methodValue, if_neg (by simpa [boundMethod] using hgetter)]
      rfl
    · show (m.store.closures.push _)[m.store.closures.size]? = _
      simp
  getter := by
    rintro method rfl hgetter
    refine ⟨m.boundMethod method isInitializer, m.bindTo method receiver, h.trans ?_, rfl,
      m.isBound method receiver isInitializer⟩
    show r.methodValue name (m.boundMethod method isInitializer) (m.bindTo method receiver) = _
    rw [Evaluator.methodValue, if_pos (by simpa [boundMethod] using hgetter)]
  undefined := by
    rintro rfl
    exact h

/-! ### Lines of classes -/

/-- The methods that a receiver is asked for: class methods if it is a class. -/
def Value.methodKind : Value → Stmt → List Function
  | .classValue _ => Stmt.classMethods
  | _ => Stmt.methods

/-- `super` asks the superclass for a method and binds it to the receiver. -/
theorem Evaluator.rawStep_super (r : Evaluator) {m : Machine} {keyword method : Token} {d : Nat}
    {p : ClassId} {receiver : Value} {line : List Origin}
    (hdistance : m.distances.find? keyword.index = some (d + 1))
    (hsuper : m.store.frames.getAt m.here (d + 1) "super" = some (.classValue p))
    (hthis : m.store.frames.getAt m.here d "this" = some receiver) (hline : m.store.Line p line) :
    r.rawStep (.super keyword method) m =
      r.bindFound (nearest receiver.methodKind method.lexeme line) method receiver
        (method.lexeme == "init") m := by
  cases receiver with
  | classValue id =>
    simp only [rawStep, superMethod, bind, EStateM.bind, Run.read, hdistance, hsuper, hthis,
      Run.require, pure, EStateM.pure, hline.findClassMethod]
    rfl
  | _ =>
    simp only [rawStep, superMethod, bind, EStateM.bind, Run.read, hdistance, hsuper, hthis,
      Run.require, pure, EStateM.pure, hline.findMethod]
    rfl

/-- **A class extends what the name of its superclass stands for.** -/
theorem Evaluator.executeStep_classDecl {r : Evaluator} {m m₁ m' : Machine} {p : ClassId}
    {name superclass : Token} {methods classMethods : List Function} {flow : Flow}
    (hsuper : r.evaluate (.variable superclass) m = .ok (.classValue p) m₁)
    (hhere : m₁.here < m₁.store.frames.size)
    (hrun :
      r.executeStep (.classDecl name (some superclass) methods classMethods) m = .ok flow m') :
    ∃ id, m'.store.frames.valueIn m₁.here name.lexeme = some (.classValue id) ∧
      m'.store.superclass? id = some p := by
  simp only [executeStep, declareClass, superclassOf, bind, EStateM.bind, hsuper, Run.read,
    Run.define, Run.changeStore_eq, Run.onStore_eq, pure, EStateM.pure] at hrun
  generalize hadded : Store.addDeclared _ m₁.here name.lexeme (some p) methods classMethods = added
    at hrun
  have hnil : added.2.frames.valueIn m₁.here name.lexeme = some .nil := by
    rw [← hadded]
    refine Store.valueIn_addDeclared ?_
    show (m₁.store.frames.define m₁.here name.lexeme .nil).valueIn m₁.here name.lexeme = _
    rw [Frames.valueIn_define _ hhere, if_pos ⟨rfl, rfl⟩]
  rw [Frames.find?_eq_self (Option.isSome_iff_exists.2 ⟨_, hnil⟩)] at hrun
  cases hrun
  refine ⟨added.1, ?_, ?_⟩
  · show (added.2.frames.define m₁.here name.lexeme (.classValue added.1)).valueIn _ _ = _
    rw [Frames.valueIn_define _ (Frames.lt_size_of_valueIn hnil), if_pos ⟨rfl, rfl⟩]
  · show added.2.superclass? added.1 = some p
    rw [← hadded]
    exact Store.superclass?_addDeclared _ _ _ _ _

namespace Machine

/-- **The class and its instances select methods along the line.** -/
structure Dispatches (m : Machine) (id : ClassId) (line : List Origin) : Prop where
  declared : m.store.Line id line
  finite :
    (∀ n < line.length, ∃ k, m.store.ancestor? id n = some k ∧ m.store.Line k (line.drop n)) ∧
    m.store.ancestor? id line.length = none
  metaclass : ∃ j, m.store.metaclass? id = some j ∧
    m.store.superclass? j = (m.store.superclass? id).bind m.store.metaclass?
  /-- An instance without a field of the name gives the nearest method, bound to the instance. -/
  object : ∀ k object, m.store.objects[k]? = some object → object.classId = id →
    ∀ name : Token, object.fields.get? name.lexeme = none → ∀ r : Evaluator,
      m.Gives r (nearest Stmt.methods name.lexeme line) name (.object k) (name.lexeme == "init")
        (r.property (.object k) name)
  /-- The class without a field of the name gives the nearest class method, bound to the class. -/
  classValue : ∀ c, m.store.classes[id]? = some c →
    ∀ name : Token, c.fields.get? name.lexeme = none → ∀ r : Evaluator,
      m.Gives r (nearest Stmt.classMethods name.lexeme line) name (.classValue id) false
        (r.property (.classValue id) name)

/-- A class that was declared dispatches. -/
theorem dispatches {m : Machine} {id : ClassId} {line : List Origin} (h : m.store.Line id line) :
    m.Dispatches id line where
  declared := h
  finite := h.ancestor?
  metaclass := h.superclass?_metaclass
  object k object hobject hid name hfield r :=
    gives (by rw [r.property_object hobject hfield, hid, h.findMethod])
  classValue c hc name hfield r :=
    gives (by rw [r.property_classValue hc hfield, h.findClassMethod])

/-- **All classes that were declared dispatch**, and all class values are such classes. -/
structure ClassesDispatch (m : Machine) : Prop where
  declared : ∀ id, (m.store.metaclass? id).isSome → ∃ line, m.Dispatches id line
  bindings : ∀ f x id, m.store.frames.valueIn f x = some (.classValue id) →
    (m.store.metaclass? id).isSome
  elements : ∀ id, m.store.Has (.element (.classValue id)) → (m.store.metaclass? id).isSome

/-- **A use of `super` selects methods along the line of the superclass** of the class that it
stands in, and binds them to the receiver of the enclosing method. -/
def DispatchesSuper (lab : Labels) (m : Machine) (keyword method : Token) : Prop :=
  ∃ c d declaration receiver id p line,
    m.memory.Visits ⟨c, .expr (.super keyword method)⟩ ∧
    InsideClass lab m.memory m.here c d declaration receiver id p line ∧ m.store.Line p line ∧
    ∀ r : Evaluator, m.Gives r (nearest receiver.methodKind method.lexeme line) method receiver
      (method.lexeme == "init") (r.rawStep (.super keyword method))

/-- On any budget the declaration makes a class that extends what the name of its superclass stands
for. -/
def Extends (m : Machine) (name superclass : Token) (methods classMethods : List Function) : Prop :=
  ∀ budget p m₁ flow m',
    (evaluatorOf budget).evaluate (.variable superclass) m = .ok (.classValue p) m₁ →
    (evaluatorOf budget).executeStep (.classDecl name (some superclass) methods classMethods) m =
      .ok flow m' →
    ∃ id, m'.store.frames.valueIn m.here name.lexeme = some (.classValue id) ∧
      m'.store.superclass? id = some p

end Machine

/-- All classes dispatch in every state, and so do all uses of `super`. A class declaration extends
the superclass that it names, and when it is completed it has bound its name to a class whose line
it begins. -/
def dispatching (lab : Labels) : Watch where
  enters _ activity m := m.ClassesDispatch ∧
    (∀ keyword method, activity = .node (.expr (.super keyword method)) →
      m.DispatchesSuper lab keyword method) ∧
    ∀ name superclass methods classMethods,
      activity = .node (.stmt (.classDecl name (some superclass) methods classMethods)) →
      m.Extends name superclass methods classMethods
  leaves _ activity m ending m' := m'.ClassesDispatch ∧
    (∀ id, ending = .value (.classValue id) → (m'.store.metaclass? id).isSome) ∧
    ∀ s name superclass methods classMethods, s = .classDecl name superclass methods classMethods →
      activity = .node (.stmt s) → ending = .flow .normal → ∃ id frame line,
        m'.store.frames.valueIn m.here name.lexeme = some (.classValue id) ∧
        m'.Dispatches id (⟨s, frame⟩ :: line)

section Justified

variable {o lab : Labels} {μ : Memory} {m : Machine}

theorem Value.Live.isSome_metaclass? {s : Store} {id : ClassId} (h : (Value.classValue id).Live s) :
    (s.metaclass? id).isSome := by
  obtain ⟨line, hline⟩ := h
  obtain ⟨j, hj, -⟩ := hline.superclass?_metaclass
  exact Option.isSome_iff_exists.2 ⟨j, hj⟩

theorem Memory.Sound.classesDispatch (h : m.memory.Sound o) : m.ClassesDispatch where
  declared id hid := by
    obtain ⟨line, hline⟩ := h.items (.declared id) hid
    exact ⟨line, Machine.dispatches hline⟩
  bindings f x id hid := (h.items (.binding f x _) hid).live.isSome_metaclass?
  elements id hid := (h.items (.element _) hid).1.isSome_metaclass?

/-- The labels of the frames at hand are all that is asked for. -/
theorem InsideClass.agrees {f : FrameId} {c : Context} {d : Nat} {declaration : Stmt}
    {receiver : Value} {id p : ClassId} {line : List Origin}
    (h : InsideClass o μ f c d declaration receiver id p line)
    (hlab : o.Agrees lab μ.frames.size) :
    InsideClass lab μ f c d declaration receiver id p line := by
  obtain ⟨hinnermost, hscope, hscope', ⟨g, hg, hlabel, hthis⟩,
    ⟨g', hg', hlabel', hsuper, hclass⟩⟩ := h
  exact ⟨hinnermost, hscope, hscope',
    ⟨g, hg, (hlab g (Frames.lt_size_of_valueIn hthis)).trans hlabel, hthis⟩,
    ⟨g', hg', (hlab g' (Frames.lt_size_of_valueIn hsuper)).trans hlabel', hsuper, hclass⟩⟩

/-- **`super` selects the method that the superclass has.** -/
theorem Stands.dispatchesSuper {c : Context} {keyword method : Token}
    (h : Stands o m.memory m.here ⟨c, .expr (.super keyword method)⟩) (hm : m.memory.Sound o)
    (hlab : o.Agrees lab m.store.frames.size) : m.DispatchesSuper lab keyword method := by
  obtain ⟨-, d, declaration, receiver, id, p, line, hdistance, hinside⟩ := h.super hm
  obtain ⟨g, hg, -, hthis⟩ := hinside.receiver
  obtain ⟨g', hg', -, hsuper, hline, hp⟩ := hinside.superclass
  have hsuperLine := (hline.of_superclass? hp).2
  refine ⟨c, d, declaration, receiver, id, p, line, h.visits, hinside.agrees hlab, hsuperLine, ?_⟩
  intro r
  exact Machine.gives (r.rawStep_super hdistance (Option.bind_eq_some_iff.2 ⟨g', hg', hsuper⟩)
    (Option.bind_eq_some_iff.2 ⟨g, hg, hthis⟩) hsuperLine)

theorem Stands.extends {c : Context} {name superclass : Token}
    {methods classMethods : List Function}
    (h : Stands o m.memory m.here
      ⟨c, .stmt (.classDecl name (some superclass) methods classMethods)⟩)
    (hm : m.memory.Sound o) : m.Extends name superclass methods classMethods := by
  intro budget p m₁ flow m' hsuper hrun
  have hsound := sound_familyOf Watch.warranted_blind budget
  obtain ⟨o₁, leads, -⟩ := (hsound.evaluate hm (h.superclassName rfl)).of_ok hsuper
  have hhere : m₁.here < m₁.store.frames.size := by
    rw [leads.here]
    exact Nat.lt_of_lt_of_le (h.lt_size hm) leads.grows.later.frames
  obtain ⟨id, hbound, hp⟩ := Evaluator.executeStep_classDecl hsuper hhere hrun
  exact ⟨id, leads.here ▸ hbound, hp⟩

theorem justified_dispatching : Watch.Justified dispatching where
  enters := by
    rintro o lab m activity hm hready - hlab
    refine ⟨hm.classesDispatch, ?_, ?_⟩
    · rintro keyword method rfl
      obtain ⟨c, hstands⟩ := hready
      exact hstands.dispatchesSuper hm hlab
    · rintro name superclass methods classMethods rfl
      obtain ⟨c, hstands⟩ := hready
      exact hstands.extends hm
  leaves := by
    rintro o o' lab m m' activity ending - - leads hending -
    refine ⟨leads.grows.sound.classesDispatch, ?_, ?_⟩
    · rintro id rfl
      cases hending with
      | value hraw => exact hraw.1.isSome_metaclass?
      | result hv => exact hv.1.isSome_metaclass?
    · rintro s name superclass methods classMethods rfl rfl rfl
      cases hending with
      | flow _ hends =>
        obtain ⟨id, frame, line, hbound, hline⟩ := hends.2 rfl
        exact ⟨id, frame, line, hbound, Machine.dispatches hline⟩

end Justified

/-- **Methods are dispatched along the lines of classes.** Whatever sources a machine has run, all
classes and all uses of `super` dispatch in every state of the history. -/
theorem Machine.exists_labels_dispatching (arguments : List String) (world : World) (tracing : Bool)
    (turns : List Turn) :
    ∃ lab : Labels, lab Store.globals = none ∧
      (dispatching lab).FindsNothing (initial arguments world tracing) turns ∧
      ((initial arguments world tracing).after turns).ClassesDispatch := by
  obtain ⟨lab, leads, hnothing⟩ :=
    sound_after justified_dispatching (rests_initial arguments world tracing) turns
  have hend := leads.grows.sound
  exact ⟨lab, hend.outermost, hnothing lab (.refl lab _), hend.classesDispatch⟩

end AliasScript
