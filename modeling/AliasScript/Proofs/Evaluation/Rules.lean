import AliasScript.Proofs.Evaluation.AliasChain
import AliasScript.Proofs.Session.Answers

/-!
# Rules of evaluation

How an evaluation that succeeds is put together from the evaluations of the parts, one rule for each
form of expression and statement. A rule names the machine that every part comes to, so the run of a
fixed program is a tree of rules that follows the program.

A method that is bound to a receiver is called by running its body where two frames are added, one
for the receiver and one for the parameters (`Machine.entered`, `Evaluator.call_bound`).
-/

namespace AliasScript

/-! ### Actions that succeed -/

namespace Run

variable {α β : Type} {m m' : Machine} {act : Run α} {a : α}

/-- Behind an action that succeeds, the next one starts. -/
theorem bind_of_ok {f : α → Run β} (h : act m = .ok a m') : (act >>= f) m = f a m' := by
  show EStateM.bind act f m = _
  rw [EStateM.bind, h]

/-- An action in another frame comes back to the one before. -/
theorem inFrame_of_ok {f : FrameId} (h : act { m with here := f } = .ok a m') :
    inFrame f act m = .ok a { m' with here := m.here } := by
  rw [inFrame, h]

/-- An action in a call comes back from it. -/
theorem inCall_of_ok (h : act { m with depth := m.depth + 1 } = .ok a m') :
    inCall act m = .ok a { m' with depth := m'.depth - 1 } := by
  rw [inCall, h]

end Run

/-! ### Values of variables -/

/-- A frame that binds a name is the nearest one that does. -/
theorem Frames.find?_self {fs : Frames} {f : FrameId} {x : String} {v : Value}
    (hv : fs.valueIn f x = some v) : fs.find? f x = some f := by
  obtain ⟨n, hn⟩ := Nat.exists_eq_add_of_lt (lt_size_of_valueIn hv)
  rw [find?, hn, findWithin, hv]
  rfl

namespace Machine

/-- The value of a name among the globals. -/
def global? (m : Machine) (name : String) : Option Value :=
  m.store.frames.valueIn Store.globals name

/-- The machine with an event in its journal. -/
def noted (m : Machine) (e : Event) : Machine :=
  { m with journal := m.journal.note e }

/-- A note is put at the end of the journal. -/
theorem note_eq (e : Event) (m : Machine) : Run.note e m = .ok () (m.noted e) :=
  rfl

/-- A declaration binds its name in the frame. -/
theorem define_eq (f : FrameId) (x : String) (v : Value) (m : Machine) :
    Run.define f x v m = .ok () (m.withValueAt ⟨f, x⟩ v) :=
  rfl

variable {m : Machine} {name : Token} {v : Value}

/-- A name without a distance is kept among the globals. -/
theorem cell?_global (hdistance : m.distances.find? name.index = none)
    (hv : m.global? name.lexeme = some v) (f : FrameId) :
    m.cell? f name = some ⟨Store.globals, name.lexeme⟩ := by
  rw [cell?, hdistance]
  exact congrArg (Option.map _) (Frames.find?_self hv)

/-- A name with a distance is kept in the frame at that distance. -/
theorem cell?_local {f g : FrameId} {d : Nat}
    (hdistance : m.distances.find? name.index = some d)
    (hframe : m.store.frames.ancestor? f d = some g)
    (hv : m.store.frames.valueIn g name.lexeme = some v) :
    m.cell? f name = some ⟨g, name.lexeme⟩ := by
  rw [cell?, hdistance]
  simp [Frames.binderAt?, hframe, hv]

/-- The machine when a class without a superclass is declared in the current frame. -/
def declaring (m : Machine) (name : String) (methods classMethods : List Function) : Machine :=
  let s := (m.withValueAt ⟨m.here, name⟩ .nil).store
  let declared := s.addDeclared m.here name none methods classMethods
  { m with store := { declared.2 with
      frames := declared.2.frames.define m.here name (.classValue declared.1) } }

end Machine

/-! ### Rules -/

namespace Evaluator

open Machine

variable {n : Nat} {m m' m'' m''' : Machine} {e left right : Expr} {name operator paren : Token}
  {v w u : Value} {c : Cell} {x y z : Float}

/-- An expression whose value is no alias gives that value. -/
theorem evaluate_of_rawStep (h : (evaluatorOf n).rawStep e m = .ok v m')
    (hv : v.isReference = false) : (evaluatorOf (n + 1)).evaluate e m = .ok v m' := by
  show EStateM.bind ((evaluatorOf n).rawStep e) _ m = _
  rw [EStateM.bind, h]
  exact followWithin_plain hv maxHops

/-- A literal is its own value. -/
theorem evaluate_literal (value : Literal) :
    (evaluatorOf (n + 1)).evaluate (.literal value) m = .ok (.ofLiteral value) m :=
  evaluate_of_rawStep rfl (by cases value <;> rfl)

/-- A variable has the value of the cell that it stands for. -/
theorem evaluate_variable (hc : m.cell? m.here name = some c) (hv : m.valueAt c = some v)
    (hplain : v.isReference = false) :
    (evaluatorOf (n + 1)).evaluate (.variable name) m = .ok v m :=
  evaluate_of_rawStep (Run.lookup_cell hc hv) hplain

/-- A receiver is looked up as a variable is. -/
theorem evaluate_this (hc : m.cell? m.here name = some c) (hv : m.valueAt c = some v)
    (hplain : v.isReference = false) :
    (evaluatorOf (n + 1)).evaluate (.this name) m = .ok v m := by
  refine evaluate_of_rawStep ?_ hplain
  have hbinder : Run.binder? name m = .ok (some c.frame) m := Run.binder?_cell hc
  simp only [rawStep, bind, EStateM.bind, hbinder]
  exact Run.lookup_cell hc hv

/-- Parentheses change nothing. -/
theorem evaluate_grouping (h : (evaluatorOf n).evaluate e m = .ok v m')
    (hplain : v.isReference = false) :
    (evaluatorOf (n + 1)).evaluate (.grouping e) m = .ok v m' :=
  evaluate_of_rawStep h hplain

/-- The left operand is evaluated before the right one. -/
theorem evaluate_binary (hleft : (evaluatorOf n).evaluate left m = .ok v m')
    (hright : (evaluatorOf n).evaluate right m' = .ok w m'')
    (hbinary : binary operator v w m'' = .ok u m''') (hplain : u.isReference = false) :
    (evaluatorOf (n + 1)).evaluate (.binary left operator right) m = .ok u m''' := by
  refine evaluate_of_rawStep ?_ hplain
  simp only [rawStep, bind, EStateM.bind, hleft, hright]
  exact hbinary

/-- A quotient by a number that is not zero. -/
theorem binary_slash (hkind : operator.kind = .slash) (hy : (y == 0) = false) :
    binary operator (.num x) (.num y) m = .ok (.num (x / y)) m := by
  rw [binary, hkind]
  simp only [onNumbers, hy]
  rfl

/-- A call, with what it gives before aliases are followed. -/
theorem raw_call {arguments : List Expr} {values : List Value}
    (hcallee : (evaluatorOf n).evaluate e m = .ok v m')
    (harguments : (evaluatorOf n).evaluateAll arguments m' = .ok values m'')
    (hcall : (evaluatorOf n).call paren v values m'' = .ok u m''') :
    (evaluatorOf (n + 1)).raw (.call e paren arguments) m = .ok u m''' := by
  show (evaluatorOf n).rawStep (.call e paren arguments) m = _
  simp only [rawStep, bind, EStateM.bind, hcallee, harguments]
  exact hcall

/-- **The callee is evaluated, then the arguments, and then the call is made.** -/
theorem evaluate_call {arguments : List Expr} {values : List Value}
    (hcallee : (evaluatorOf n).evaluate e m = .ok v m')
    (harguments : (evaluatorOf n).evaluateAll arguments m' = .ok values m'')
    (hcall : (evaluatorOf n).call paren v values m'' = .ok u m''')
    (hplain : u.isReference = false) :
    (evaluatorOf (n + 1)).evaluate (.call e paren arguments) m = .ok u m''' :=
  evaluate_of_rawStep (raw_call hcallee harguments hcall) hplain

/-- A property of the value of an expression. -/
theorem evaluate_get (hobject : (evaluatorOf n).evaluate e m = .ok v m')
    (hproperty : (evaluatorOf n).property v name m' = .ok u m'') (hplain : u.isReference = false) :
    (evaluatorOf (n + 1)).evaluate (.get e name) m = .ok u m'' := by
  refine evaluate_of_rawStep ?_ hplain
  simp only [rawStep, bind, EStateM.bind, hobject]
  exact hproperty

/-- A field of an instance that is no getter. -/
theorem property_field (r : Evaluator) {id : Nat} {object : Object}
    (hobject : m.store.objects[id]? = some object)
    (hfield : object.fields.get? name.lexeme = some v) (hgetter : m.store.getter? v = none) :
    r.property (.object id) name m = .ok v m := by
  simp only [property, bind, EStateM.bind, Run.read, hobject, Run.require, pure, EStateM.pure,
    fieldOrMethod, hfield, fieldValue, hgetter]

/-- The arguments are evaluated from left to right. -/
theorem evaluateAll_cons {r : Evaluator} {rest : List Expr} {values : List Value}
    (hfirst : r.evaluate e m = .ok v m') (hrest : r.evaluateAll rest m' = .ok values m'') :
    r.evaluateAll (e :: rest) m = .ok (v :: values) m'' := by
  simp only [evaluateAll, bind, EStateM.bind, hfirst, hrest]
  rfl

/-- Numbers that are written out. -/
theorem evaluateAll_numbers (xs : List Float) :
    (evaluatorOf (n + 1)).evaluateAll (xs.map fun x ↦ .literal (.num x)) m =
      .ok (xs.map .num) m := by
  induction xs with
  | nil => rfl
  | cons x rest ih => exact evaluateAll_cons (evaluate_literal _) ih

/-- An assignment to a variable that holds no alias. -/
theorem evaluate_assign (hvalue : (evaluatorOf n).evaluate e m = .ok v m')
    (hc : m'.cell? m'.here name = some c) (hold : m'.valueAt c = some w)
    (hw : w.isReference = false) (hv : v.isReference = false) :
    (evaluatorOf (n + 1)).evaluate (.assign name e) m = .ok v (m'.withValueAt c v) := by
  have hstore : (evaluatorOf n).store name v m' = .ok () (m'.withValueAt c v) :=
    storeWithin_plain hc hold hw maxHops v
  refine evaluate_of_rawStep ?_ hv
  simp only [rawStep, bind, EStateM.bind, hvalue, hstore]
  rfl

/-! ### Statements -/

/-- The value of a statement is dropped. -/
theorem execute_expression (h : (evaluatorOf n).evaluate e m = .ok v m') :
    (evaluatorOf (n + 1)).execute (.expression e) m = .ok .normal m' := by
  show EStateM.bind ((evaluatorOf n).evaluate e) _ m = _
  rw [EStateM.bind, h]
  rfl

/-- A return ends the function with its value. -/
theorem execute_ret {keyword : Token} (h : (evaluatorOf n).evaluate e m = .ok v m') :
    (evaluatorOf (n + 1)).execute (.ret keyword (some e)) m = .ok (.returned v) m' := by
  show EStateM.bind ((evaluatorOf n).evaluate e) _ m = _
  rw [EStateM.bind, h]
  rfl

/-- A variable is bound to its initial value, which may be an alias. -/
theorem execute_var (h : (evaluatorOf n).raw e m = .ok v m') :
    (evaluatorOf (n + 1)).execute (.var name (some e)) m =
      .ok .normal (m'.withValueAt ⟨m'.here, name.lexeme⟩ v) := by
  show (evaluatorOf n).executeStep (.var name (some e)) m = _
  simp only [executeStep, bind, EStateM.bind, h]
  rfl

/-- An import evaluates the name of its module first. -/
theorem execute_importModule {keyword : Token} {path : String}
    (hname : (evaluatorOf n).evaluate e m = .ok (.str path) m')
    (himport : (evaluatorOf n).importPath keyword path m' = .ok () m'') :
    (evaluatorOf (n + 1)).execute (.importModule keyword e) m = .ok .normal m'' := by
  show (evaluatorOf n).executeStep (.importModule keyword e) m = _
  simp only [executeStep, bind, EStateM.bind, hname, himport]
  rfl

/-- A class without a superclass is declared and bound to its name. -/
theorem execute_classDecl {methods classMethods : List Function}
    (hhere : m.here < m.store.frames.size) :
    (evaluatorOf (n + 1)).execute (.classDecl name none methods classMethods) m =
      .ok .normal (m.declaring name.lexeme methods classMethods) := by
  have hfind : ((m.withValueAt ⟨m.here, name.lexeme⟩ .nil).store.addDeclared m.here name.lexeme none
      methods classMethods).2.frames.find? m.here name.lexeme = some m.here :=
    Frames.find?_self ((Frames.valueIn_define m.store.frames hhere m.here name.lexeme name.lexeme
      .nil).trans (if_pos ⟨rfl, rfl⟩))
  have hdeclare : declareClass (evaluatorOf n) name none methods classMethods m =
      .ok () (m.declaring name.lexeme methods classMethods) := by
    simp only [declareClass, superclassOf, EStateM.bind, bind, pure, EStateM.pure, Run.read,
      define_eq, Run.onStore_eq, hfind]
    rfl
  exact Run.bind_of_ok hdeclare

/-- A statement that ends in the ordinary way is followed by the next one. -/
theorem executeAll_cons {r : Evaluator} {s : Stmt} {rest : List Stmt}
    (h : r.execute s m = .ok .normal m') :
    r.executeAll (s :: rest) m = r.executeAll rest m' := by
  simp only [executeAll, bind, EStateM.bind, h]

/-- A statement that returns ends those that it stands among. -/
theorem executeAll_returned {r : Evaluator} {s : Stmt} {rest : List Stmt}
    (h : r.execute s m = .ok (.returned v) m') :
    r.executeAll (s :: rest) m = .ok (.returned v) m' := by
  simp only [executeAll, bind, EStateM.bind, h]
  rfl

/-- The statements of a program, one after the other. -/
theorem executeTop_cons {r : Evaluator} {s : Stmt} {rest : List Stmt}
    (h : r.execute s m = .ok .normal m') :
    r.executeTop (s :: rest) m = r.executeTop rest m' := by
  simp only [executeTop, bind, EStateM.bind, h]

/-! ### Calls -/

/-- A call with the right number of arguments, below the bound on calls, is noted and made. -/
theorem call_eq {callee : Callee} {arguments : List Value} (r : Evaluator)
    (hcallee : m.store.callee? v = some callee)
    (harity : m.store.calleeArity callee = arguments.length) (hdepth : m.depth < maxDepth) :
    r.call paren v arguments m = Run.inCall (r.apply paren callee arguments)
      (m.noted (.calling (Store.calleeName callee) arguments.length)) := by
  simp only [call, bind, EStateM.bind, Run.read, hcallee, harity, BEq.rfl, if_true, invoke,
    if_neg (Nat.not_le.2 hdepth)]
  rfl

/-- A built-in function that leaves the machine as it is. -/
theorem call_builtin {id : Nat} {b : Builtin} {arguments : List Value}
    (hb : m.store.builtins[id]? = some b) (harity : b.arity = arguments.length)
    (hdepth : m.depth < maxDepth) (hcall : ∀ m, b.call paren arguments m = .ok v m) :
    (evaluatorOf (n + 1)).call paren (.builtin id) arguments m =
      .ok v (m.noted (.calling b.name arguments.length)) := by
  have hcallee : m.store.callee? (.builtin id) = some (.builtin b) := by
    rw [Store.callee?, hb]
    rfl
  rw [call_eq _ hcallee harity hdepth]
  show Run.inCall (b.call paren arguments) _ = _
  rw [Run.inCall, hcall]
  rfl

end Evaluator

namespace Machine

variable (m : Machine) (receiver : Value) (method : Closure) (arguments : List Value)

/-- The machine when a method is bound to a receiver and made a value. -/
def withBound : Machine :=
  { m.bindTo method receiver with
    store := ((m.bindTo method receiver).store.addClosure (m.boundMethod method false)).2 }

/-- The machine at the start of the body of a method that is bound to a receiver. -/
def entered : Machine :=
  { m.withBound receiver method with
    store := ((m.withBound receiver method).store.addFrame m.store.frames.size
      (method.declaration.bindings arguments)).2
    here := (m.withBound receiver method).store.frames.size
    depth := m.depth + 1
    journal := m.journal.note (.calling (Store.calleeName (.function method)) arguments.length) }

/-- The machine that is back from a call where another one stood. -/
def backTo (m' : Machine) : Machine :=
  { m' with here := m.here, depth := m.depth }

variable {m} in
/-- In the frame of a method, global names are what they were. -/
theorem global?_entered (hsize : 0 < m.store.frames.size) (x : String) :
    (m.entered receiver method arguments).global? x = m.global? x := by
  have hinner : Store.globals ≠ (m.withBound receiver method).store.frames.size := by
    show 0 ≠ (m.store.frames.push _).size
    rw [Array.size_push]
    omega
  exact (Frames.valueIn_push_of_ne _ _ hinner x).trans
    (Frames.valueIn_push_of_ne _ _ (Nat.ne_of_lt hsize) x)

/-- The parameters are bound in the innermost frame. -/
theorem valueIn_entered (x : String) :
    (m.entered receiver method arguments).store.frames.valueIn
      (m.entered receiver method arguments).here x =
        (method.declaration.bindings arguments).get? x :=
  Frames.valueIn_push_self _ _ x

/-- The receiver is bound in the frame around it. -/
theorem this_entered :
    (m.entered receiver method arguments).store.frames.ancestor?
        (m.entered receiver method arguments).here 1 = some m.store.frames.size ∧
      (m.entered receiver method arguments).store.frames.valueIn m.store.frames.size "this" =
        some receiver := by
  have hparent := Frames.parent?_push_self (m.withBound receiver method).store.frames
    ⟨some m.store.frames.size, method.declaration.bindings arguments⟩
  have hne : m.store.frames.size ≠ (m.withBound receiver method).store.frames.size := by
    show _ ≠ (m.store.frames.push _).size
    rw [Array.size_push]
    omega
  constructor
  · exact congrArg (Option.bind · some) hparent
  · exact (Frames.valueIn_push_of_ne _ _ hne "this").trans (valueIn_bindTo m method receiver)

end Machine

namespace Evaluator

open Machine

variable {n : Nat} {m m' : Machine} {id : ClassId} {c : ClassObject} {method : Closure}
  {name paren : Token} {arguments : List Value} {flow : Flow} {receiver : Value}

/-- A class that is asked for a class method binds it to itself. -/
theorem property_classMethod (r : Evaluator) (hclass : m.store.classes[id]? = some c)
    (hfield : c.fields.get? name.lexeme = none)
    (hmethod : m.store.findClassMethod id name.lexeme = some method)
    (hgetter : method.declaration.isGetter = false) :
    r.property (.classValue id) name m =
      .ok (.function m.store.closures.size) (m.withBound (.classValue id) method) := by
  rw [property_classValue _ hclass hfield, hmethod]
  show methodValue r name (m.boundMethod method false) (m.bindTo method (.classValue id)) = _
  rw [methodValue, if_neg (by simpa [boundMethod] using hgetter)]
  rfl

/-- **A bound method is called by running its body**, from which the call comes back to where it was
made. -/
theorem call_bound (harity : method.declaration.arity = arguments.length)
    (hdepth : m.depth < maxDepth)
    (hbody : (evaluatorOf n).executeAll method.declaration.body
      (m.entered receiver method arguments) = .ok flow m') (hcalls : m'.depth = m.depth + 1) :
    (evaluatorOf (n + 1)).call paren (.function m.store.closures.size) arguments
      (m.withBound receiver method) = .ok flow.result (m.backTo m') := by
  have hcallee : (m.withBound receiver method).store.callee? (.function m.store.closures.size) =
      some (.function (m.boundMethod method false)) := by
    show Option.map _ (m.store.closures.push _)[m.store.closures.size]? = _
    rw [Array.getElem?_push_size]
    rfl
  -- The body is run in a new frame, inside of one more call.
  have hrun : (evaluatorOf n).callFunction (m.boundMethod method false) arguments
      { m.entered receiver method arguments with
        store := (m.withBound receiver method).store, here := m.here } =
      .ok flow.result { m' with here := m.here } := by
    rw [callFunction_eq]
    exact Run.bind_of_ok (Run.inFrame_of_ok hbody)
  rw [call_eq _ hcallee harity hdepth]
  refine (Run.inCall_of_ok hrun).trans ?_
  rw [hcalls]
  rfl

end Evaluator

end AliasScript
