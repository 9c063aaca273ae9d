import AliasScript.Proofs.Session.Dispatch
import AliasScript.Proofs.Session.Usable

/-!
# What methods answer

The initializer of an instance answers the instance, whatever its body returns, and every other
method answers what its body returns (`Value.answer`). A method comes to be called in several ways:
a class is called and runs the initializer of its new instance; a property or a `super` gives a
method that is bound to its receiver, which may be called at once or kept and called much later; and
if the method is a getter, the property or the `super` calls it.

A bound method is marked when it is made, and the mark decides what it answers. Functions keep their
numbers and their receivers for the whole history, so a mark that is right stays right: `answering`
compares every state of a history with the store at its end. All marks are right but one: `super`
marks a method by its name alone, so a class method that is called `init` and reached through
`super` answers its class (`Expr.slips`).
-/

namespace AliasScript

/-! ### The rule -/

/-- What a body has returned, and `nil` if it has returned nothing. -/
def Flow.result : Flow → Value
  | .normal => .nil
  | .returned v => v

/-- Whether the value is an instance of a class. -/
def Value.isInstance : Value → Bool
  | .object _ => true
  | _ => false

/-- **What a method of a name is to answer**: its receiver if it is the initializer of an instance,
and else what its body has returned. -/
def Value.answer (receiver : Value) (method : String) (flow : Flow) : Value :=
  if receiver.isInstance && method == "init" then receiver else flow.result

/-- The expression is a `super` that takes a method for an initializer though its receiver is no
instance. -/
def Expr.slips (receiver : Value) (method : String) : Expr → Bool
  | .super _ _ => !receiver.isInstance && method == "init"
  | _ => false

/-- What a method answers that the expression has selected for a receiver. -/
def Expr.answer (e : Expr) (receiver : Value) (method : String) (flow : Flow) : Value :=
  if e.slips receiver method then receiver else receiver.answer method flow

/-- Whether a method that the expression has selected is marked as an initializer. -/
def Expr.marks (e : Expr) (receiver : Value) (method : String) : Bool :=
  (receiver.isInstance && method == "init") || e.slips receiver method

theorem Expr.marks_get (object : Expr) (name : Token) (receiver : Value) (method : String) :
    (Expr.get object name).marks receiver method = (receiver.isInstance && method == "init") := by
  simp [marks, slips]

/-- A `super` goes by the name alone. -/
theorem Expr.marks_super (keyword name : Token) (receiver : Value) (method : String) :
    (Expr.super keyword name).marks receiver method = (method == "init") := by
  cases hinstance : receiver.isInstance <;> simp [marks, slips, hinstance]

/-- What a function answers by its mark. -/
def Closure.answer (c : Closure) (receiver : Value) (flow : Flow) : Value :=
  if c.isInitializer then receiver else flow.result

/-- Functions that are marked alike give the same answer. -/
theorem Closure.answer_eq {c : Closure} {e : Expr} {receiver : Value} {method : String}
    (h : c.isInitializer = e.marks receiver method) :
    c.answer receiver = e.answer receiver method := by
  funext flow
  unfold Closure.answer Expr.answer Value.answer
  rw [h, Expr.marks]
  cases e.slips receiver method <;> simp

/-! ### Calls of functions -/

namespace Run

variable {α β : Type} {m m' : Machine}

/-- A result that was made from another one has it to show. -/
theorem of_map {f : α → β} {act : Run α} {b : β} (h : (f <$> act) m = .ok b m') :
    ∃ a, act m = .ok a m' ∧ f a = b := by
  have hmap : EStateM.map f act m = .ok b m' := h
  unfold EStateM.map at hmap
  split at hmap
  · next a m'' hact =>
    cases hmap
    exact ⟨a, hact, rfl⟩
  · cases hmap

/-- If the value of an action is dropped, it does not matter what becomes of it before. -/
theorem drop_map {γ : Type} {f : α → β} {act : Run α} {act' : Run β} {c : γ}
    (h : act' m = (f <$> act) m) : (act' >>= fun _ ↦ pure c) m = ((fun _ ↦ c) <$> act) m := by
  have h' : act' m = EStateM.map f act m := h
  show EStateM.bind act' _ m = EStateM.map _ act m
  cases hact : act m with
  | ok a m' =>
    simp only [EStateM.bind, h', EStateM.map, hact]
    rfl
  | error e m' => simp only [EStateM.bind, h', EStateM.map, hact]

/-- What is done inside of a call, and what becomes of its value. -/
theorem inCall_map {f : α → β} {act : Run α} {act' : Run β}
    (h : act' { m with depth := m.depth + 1 } = (f <$> act) { m with depth := m.depth + 1 }) :
    inCall act' m = (f <$> inCall act) m := by
  show inCall act' m = EStateM.map f (inCall act) m
  have h' : act' _ = EStateM.map f act _ := h
  cases hact : act { m with depth := m.depth + 1 } <;>
    simp only [inCall, h', EStateM.map, hact]

end Run

namespace Evaluator

variable (r : Evaluator)

/-- Runs the body of a function, in a new frame that binds its parameters. -/
def runBody (c : Closure) (arguments : List Value) : Run Flow := do
  let frame ← Run.newFrame c.frame (c.declaration.bindings arguments)
  Run.inFrame frame (executeAll r c.declaration.body)

/-- Runs the body of a function inside of one more call. -/
def perform (c : Closure) (arguments : List Value) : Run Flow := do
  Run.note (.calling (Store.calleeName (.function c)) arguments.length)
  Run.inCall (runBody r c arguments)

/-- A function is called by running its body; what it answers is settled then. -/
theorem callFunction_eq (c : Closure) (arguments : List Value) :
    r.callFunction c arguments = r.runBody c arguments >>= fun flow ↦
      if c.isInitializer then do
        Run.require .initializerUnbound
          (← Run.read fun m ↦ m.store.frames.getAt c.frame 0 "this")
      else return flow.result := by
  unfold callFunction runBody Function.bindings
  rw [bind_assoc]
  refine bind_congr fun frame ↦ bind_congr fun flow ↦ ?_
  cases flow <;> rfl

end Evaluator

/-- Running the body of a function keeps memory in order. -/
theorem Family.Sound.runBody {A : Family} (hA : A.Sound) {o : Labels} {m : Machine}
    (hm : m.memory.Sound o) {c : Closure} {arguments : List Value} (hc : c.Callable o m.memory)
    (harity : c.declaration.arity = arguments.length)
    (harguments : ∀ v ∈ arguments, v.Plain m.memory.store) :
    Meets A o m (fun r ↦ r.runBody c arguments) fun _ _ _ ↦ True := by
  have hframe := hc.lt_size hm
  obtain ⟨⟨context, hvisits, hchain⟩, -⟩ := hc
  have hgrows := hm.addCallFrame (f := c.declaration) hframe harity harguments
  have hbody := Memory.Sound.chain_atBody harity hchain
  refine .onStoreThen hgrows (.imp (.inFrame (hA.executeAll hgrows.sound ?_ hbody)) ?_)
  · intro w hw
    exact (hvisits.inside hw).later hgrows.later
  · exact fun _ _ _ _ _ ↦ trivial

section Calls

variable {o : Labels} {m : Machine} {c : Closure} {arguments : List Value} {receiver : Value}
  (hm : m.memory.Sound o) (hc : c.Callable o m.memory)
  (harity : c.declaration.arity = arguments.length)
  (harguments : ∀ v ∈ arguments, v.Plain m.memory.store)
  (hreceiver : c.isInitializer = true → m.store.frames.valueIn c.frame "this" = some receiver)

include hm hc harity harguments hreceiver

/-- **A function answers by its mark**, once its body is completed: its receiver is what it was. -/
theorem Closure.Callable.callFunction_eq (budget : Nat) :
    (evaluatorOf budget).callFunction c arguments m =
      (c.answer receiver <$> (evaluatorOf budget).runBody c arguments) m := by
  have hbody := (sound_familyOf Watch.warranted_blind budget).runBody hm hc harity harguments
  rw [Evaluator.callFunction_eq]
  show EStateM.bind _ _ m = EStateM.map _ _ m
  unfold EStateM.bind EStateM.map
  cases hrun : (evaluatorOf budget).runBody c arguments m with
  | error e m' => rfl
  | ok flow m' =>
    obtain ⟨o', leads, -⟩ := hbody.of_ok hrun
    dsimp only
    cases hmark : c.isInitializer with
    | false =>
      simp only [Closure.answer, hmark]
      rfl
    | true =>
      have hthis : m'.store.frames.getAt c.frame 0 "this" = some receiver :=
        leads.grows.later.keywords _ _ _ (.inl rfl) (hreceiver hmark)
      simp only [Closure.answer, hmark, if_true, bind, EStateM.bind, Run.read, hthis, Run.require]
      rfl

/-- **A call of a function that is completed has run its body**, and answers by the mark. -/
theorem Closure.Callable.of_invoke {budget : Nat} {paren : Token} {v : Value} {m' : Machine}
    (hrun : (evaluatorOf budget).invoke paren (.function c) arguments m = .ok v m') :
    ∃ k flow, budget = k + 1 ∧ (evaluatorOf k).perform c arguments m = .ok flow m' ∧
      v = c.answer receiver flow := by
  have hdepth : ¬ maxDepth ≤ m.depth := by
    intro hle
    rw [Evaluator.invoke_of_maxDepth_le _ hle] at hrun
    cases hrun
  simp only [Evaluator.invoke, bind, EStateM.bind, Run.read, if_neg hdepth] at hrun
  cases budget with
  | zero => cases hrun
  | succ k =>
    -- The call begins in a state that differs from this one in what no function depends on.
    let noted : Machine := { m with
      journal := m.journal.note (.calling (Store.calleeName (.function c)) arguments.length) }
    have hcalled : Run.inCall ((evaluatorOf k).callFunction c arguments) noted =
        (c.answer receiver <$> Run.inCall ((evaluatorOf k).runBody c arguments)) noted :=
      Run.inCall_map (callFunction_eq (m := { noted with depth := noted.depth + 1 }) hm hc harity
        harguments hreceiver k)
    obtain ⟨flow, hflow, hv⟩ := Run.of_map (hcalled.symm.trans hrun)
    exact ⟨k, flow, rfl, hflow, hv.symm⟩

omit hc harity in
/-- A function that is called by its number and is completed has run its body, and answers by the
mark. -/
theorem Memory.Sound.of_call {id budget : Nat} {paren : Token} {v : Value} {m' : Machine}
    (hid : m.store.closures[id]? = some c)
    (hrun : (evaluatorOf budget).call paren (.function id) arguments m = .ok v m') :
    ∃ k flow, budget = k + 1 ∧ (evaluatorOf k).perform c arguments m = .ok flow m' ∧
      v = c.answer receiver flow := by
  have hcallee : m.store.callee? (.function id) = some (.function c) := by
    rw [Store.callee?, hid]
    rfl
  simp only [Evaluator.call, bind, EStateM.bind, Run.read, hcallee] at hrun
  split at hrun
  · next harity =>
    have hc := (hm.items (.closure c) (Array.mem_of_getElem? hid)).2
    exact hc.of_invoke hm (eq_of_beq harity) harguments hreceiver hrun
  · cases hrun

end Calls

/-! ### Methods that are selected -/

/-- A method that can be bound can be called when it is. -/
theorem Closure.Bindable.bindTo {o : Labels} {m : Machine} {method : Closure} {receiver : Value}
    (h : method.Bindable o m.memory) (hm : m.memory.Sound o) (hreceiver : receiver.Plain m.store)
    (isInitializer : Bool) :
    ∃ o', Leads o m o' (m.bindTo method receiver) ∧
      (m.boundMethod method isInitializer).Callable o' (m.bindTo method receiver).memory := by
  have hmeets := Meets.bindMethod (A := familyOf (fun _ _ ↦ Watch.blind) 0) hm h hreceiver
    isInitializer
  obtain ⟨o', leads, -, hcallable⟩ := hmeets.of_ok rfl
  exact ⟨o', leads, hcallable⟩

/-- The method of a name that a class has for a receiver: a class method if the receiver is a class.
-/
def Store.findFor (s : Store) (receiver : Value) (id : ClassId) (name : String) : Option Closure :=
  match receiver with
  | .classValue _ => s.findClassMethod id name
  | _ => s.findMethod id name

/-- A method that is found is held by the store. -/
theorem Store.has_of_findFor {s : Store} {receiver : Value} {id : ClassId} {name : String}
    {c : Closure} (h : s.findFor receiver id name = some c) : s.Has (.method c) := by
  unfold findFor at h
  split at h
  · exact has_of_findClassMethod h
  · exact has_of_findMethod h

namespace Evaluator

/-- **The expression asks a receiver for a method of a name**: a property asks the instance or the
class that has no such field, and a `super` asks the superclass on behalf of the receiver of the
enclosing method. Behind that is the state in which the answer is looked for. -/
inductive Asks (r : Evaluator) (m : Machine) :
    Expr → Value → Token → Option Closure → Machine → Prop
  | ofInstance {e : Expr} {name : Token} {id : Nat} {object : Object} {m' : Machine} :
      r.evaluate e m = .ok (.object id) m' → m'.store.objects[id]? = some object →
      object.fields.get? name.lexeme = none →
      Asks r m (.get e name) (.object id) name (m'.store.findMethod object.classId name.lexeme) m'
  | ofClass {e : Expr} {name : Token} {id : ClassId} {c : ClassObject} {m' : Machine} :
      r.evaluate e m = .ok (.classValue id) m' → m'.store.classes[id]? = some c →
      c.fields.get? name.lexeme = none →
      Asks r m (.get e name) (.classValue id) name (m'.store.findClassMethod id name.lexeme) m'
  | ofSuper {keyword name : Token} {d : Nat} {p : ClassId} {receiver : Value} :
      m.distances.find? keyword.index = some (d + 1) →
      m.store.frames.getAt m.here (d + 1) "super" = some (.classValue p) →
      m.store.frames.getAt m.here d "this" = some receiver →
      Asks r m (.super keyword name) receiver name (m.store.findFor receiver p name.lexeme) m

variable {r : Evaluator} {m m' : Machine} {e : Expr} {receiver : Value} {name : Token}
  {found : Option Closure}

/-- **What is found is bound to the receiver**, with the mark that the expression gives it. -/
theorem Asks.rawStep_eq (h : r.Asks m e receiver name found m') :
    r.rawStep e m = r.bindFound found name receiver (e.marks receiver name.lexeme) m' := by
  cases h with
  | ofInstance heval hobject hfield =>
    simp only [rawStep, bind, EStateM.bind, heval]
    rw [r.property_object hobject hfield]
    simp [Expr.marks_get, Value.isInstance]
  | ofClass heval hclass hfield =>
    simp only [rawStep, bind, EStateM.bind, heval]
    rw [r.property_classValue hclass hfield]
    simp [Expr.marks_get, Value.isInstance]
  | ofSuper hdistance hsuper hthis =>
    rw [Expr.marks_super]
    simp only [rawStep, superMethod, bind, EStateM.bind, Run.read, hdistance, hsuper, hthis,
      Run.require, pure, EStateM.pure]
    rfl

variable {o : Labels}

/-- What is found can be bound to the receiver. -/
theorem Asks.bindable {budget : Nat} (h : (evaluatorOf budget).Asks m e receiver name found m')
    (hm : m.memory.Sound o) (he : Runnable o m.memory m.here (.expr e)) :
    ∃ o', Leads o m o' m' ∧ receiver.Plain m'.store ∧
      ∀ method, found = some method → method.Bindable o' m'.memory := by
  have hsound := sound_familyOf Watch.warranted_blind budget
  cases h with
  | ofInstance heval _ _ =>
    obtain ⟨o', leads, hplain⟩ :=
      (hsound.evaluate hm (he.part (by simp [Expr.parts]))).of_ok heval
    exact ⟨o', leads, hplain, fun method hfound ↦
      leads.grows.sound.items (.method method) (Store.has_of_findMethod hfound)⟩
  | ofClass heval _ _ =>
    obtain ⟨o', leads, hplain⟩ :=
      (hsound.evaluate hm (he.part (by simp [Expr.parts]))).of_ok heval
    exact ⟨o', leads, hplain, fun method hfound ↦
      leads.grows.sound.items (.method method) (Store.has_of_findClassMethod hfound)⟩
  | ofSuper _ _ hthis =>
    obtain ⟨g, -, hv⟩ := Option.bind_eq_some_iff.1 hthis
    refine ⟨o, ⟨rfl, rfl, hm.refl⟩, hm.plain_keyword (.inl rfl) hv, fun method hfound ↦ ?_⟩
    exact hm.items (.method method) (Store.has_of_findFor hfound)

end Evaluator

/-! ### Functions that are kept -/

/-- The functions of the store are functions of another one, with the same numbers and receivers. -/
structure Store.Within (s s' : Store) : Prop where
  functions : s.KeepsFunctions s'
  receivers : ∀ f v, s.frames.valueIn f "this" = some v → s'.frames.valueIn f "this" = some v

/-- Memory that grows keeps what is in it. -/
theorem Memory.Grows.within {o o' : Labels} {μ μ' : Memory} (h : μ.Grows o o' μ') :
    μ.store.Within μ'.store :=
  ⟨h.functions, fun f v ↦ h.later.keywords f "this" v (.inl rfl)⟩

/-- The function of that number has the receiver, and the mark that the expression gives to a method
of the name when it selects it for the receiver. -/
def Store.Selected (s : Store) (id : Nat) (e : Expr) (receiver : Value) (method : String) : Prop :=
  ∃ c, s.closures[id]? = some c ∧ s.frames.valueIn c.frame "this" = some receiver ∧
    c.isInitializer = e.marks receiver method

/-- A function has its receiver and its mark from the beginning. -/
theorem Store.Selected.before {s s' : Store} {id : Nat} {e : Expr} {receiver : Value}
    {method : String} (h : s'.Selected id e receiver method) (hs : s.Within s') {c : Closure}
    (hc : s.closures[id]? = some c) :
    c.isInitializer = e.marks receiver method ∧
      ∀ v, s.frames.valueIn c.frame "this" = some v → v = receiver := by
  obtain ⟨c', hc', hthis, hmark⟩ := h
  cases (hs.functions id c hc).symm.trans hc'
  refine ⟨hmark, fun v hv ↦ ?_⟩
  exact Option.some.inj ((hs.receivers _ _ hv).symm.trans hthis)

namespace Machine

/-- **Whenever the function is called, it answers by a rule** what its body has left. -/
def Answers (m : Machine) (c : Closure) (arguments : List Value) (rule : Flow → Value) : Prop :=
  ∀ budget, (evaluatorOf budget).callFunction c arguments m =
    (rule <$> (evaluatorOf budget).runBody c arguments) m

/-- **What comes of a method that the expression has found** for a receiver. -/
structure Selects (m : Machine) (budget : Nat) (e : Expr) (receiver : Value) (name : Token)
    (method : Closure) (m' : Machine) : Prop where
  /-- A method that is no getter is bound to the receiver and becomes a function. -/
  function : method.declaration.isGetter = false → ∃ id m'',
    (evaluatorOf budget).rawStep e m = .ok (.function id) m'' ∧
      m''.store.closures[id]? = some (m'.boundMethod method (e.marks receiver name.lexeme)) ∧
      m''.store.Selected id e receiver name.lexeme
  /-- A getter is bound to the receiver and called. -/
  getter : method.declaration.isGetter = true → ∀ v m'',
    (evaluatorOf budget).rawStep e m = .ok v m'' → ∃ k flow, budget = k + 1 ∧
      (evaluatorOf k).perform (m'.boundMethod method (e.marks receiver name.lexeme)) []
        (m'.bindTo method receiver) = .ok flow m'' ∧
      v = e.answer receiver name.lexeme flow

/-- **A method that is called where it is selected answers as the expression says.** -/
def Invokes (m : Machine) (budget : Nat) (e : Expr) (paren : Token) (arguments : List Expr)
    (receiver : Value) (method : String) (c : Closure) : Prop :=
  ∀ v m', (evaluatorOf (budget + 1)).rawStep (.call e paren arguments) m = .ok v m' →
    ∃ id m₁ values m₂ flow, (evaluatorOf budget).rawStep e m = .ok (.function id) m₁ ∧
      (evaluatorOf (budget + 1)).evaluateAll arguments m₁ = .ok values m₂ ∧
      (evaluatorOf budget).perform c values m₂ = .ok flow m' ∧ v = e.answer receiver method flow

/-- The machine when an instance has been made. -/
def addInstance (m : Machine) (id : ClassId) : Machine :=
  { m with store := (m.store.addObject ⟨id, []⟩).2 }

/-- **A class that is called answers a new instance**, for which it has run the initializer. -/
def Constructs (m : Machine) (id : ClassId) (arguments : List Value) : Prop :=
  ∀ budget, (evaluatorOf budget).construct id arguments m =
    match m.store.findMethod id "init" with
    | none => .ok (.object m.store.objects.size) (m.addInstance id)
    | some method =>
      ((Value.object m.store.objects.size).answer "init" <$> (evaluatorOf budget).runBody
        ((m.addInstance id).boundMethod method true) arguments)
        ((m.addInstance id).bindTo method (.object m.store.objects.size))

/-- **Methods answer as they should in the state in which an activity begins**, if the store is that
at the end of the history. -/
structure AnswersIn (m : Machine) (s : Store) (activity : Activity) : Prop where
  within : m.store.Within s
  /-- Wherever a function is called that an expression has selected, at whatever time, it answers as
  that expression says. -/
  kept : ∀ c arguments, activity = .call (.function c) arguments →
    ∀ id e receiver method, m.store.closures[id]? = some c → s.Selected id e receiver method →
      m.Answers c arguments (e.answer receiver method)
  /-- A `super` has a receiver to ask for. -/
  asks : ∀ keyword name, activity = .node (.expr (.super keyword name)) → ∃ receiver p,
    ∀ r : Evaluator, r.Asks m (.super keyword name) receiver name
      (m.store.findFor receiver p name.lexeme) m
  selects : ∀ e, activity = .node (.expr e) → ∀ budget receiver name method m',
    (evaluatorOf budget).Asks m e receiver name (some method) m' →
    m.Selects budget e receiver name method m'
  invokes : ∀ e paren arguments, activity = .node (.expr (.call e paren arguments)) →
    ∀ budget receiver name method m', (evaluatorOf budget).Asks m e receiver name (some method) m' →
    method.declaration.isGetter = false →
    m.Invokes budget e paren arguments receiver name.lexeme
      (m'.boundMethod method (e.marks receiver name.lexeme))
  constructs : ∀ id c arguments, activity = .call (.construct id c) arguments →
    m.Constructs id arguments

end Machine

/-- Methods answer as they should, and all functions are those of the store, with their receivers.
-/
def answering (s : Store) : Watch where
  enters _ activity m := m.AnswersIn s activity
  leaves _ _ _ _ m' := m'.store.Within s

section Warranted

variable {o : Labels} {m m' : Machine}

/-- **A method that was selected is answered for later**, as long as its function keeps its number.
-/
theorem Machine.answers_of_selected {s : Store} {c : Closure} {arguments : List Value} {id : Nat}
    {e : Expr} {receiver : Value} {method : String} (hm : m.memory.Sound o)
    (happlicable : Applicable o m.memory m.here (.function c) arguments) (hs : m.store.Within s)
    (hid : m.store.closures[id]? = some c) (hselected : s.Selected id e receiver method) :
    m.Answers c arguments (e.answer receiver method) := by
  obtain ⟨-, ⟨hc, harity⟩, harguments⟩ := happlicable
  obtain ⟨hmark, hthis⟩ := hselected.before hs hid
  intro budget
  rw [← Closure.answer_eq hmark]
  refine hc.callFunction_eq hm harity harguments (fun hinit ↦ ?_) budget
  obtain ⟨v, hv⟩ := Option.isSome_iff_exists.1 (hc.receiver hinit)
  exact hthis v hv ▸ hv

/-- At `super`, the receiver and the class to be asked are those of the frame. -/
theorem Runnable.asks_super {keyword name : Token} (hm : m.memory.Sound o)
    (h : Runnable o m.memory m.here (.expr (.super keyword name))) :
    ∃ receiver p, ∀ r : Evaluator, r.Asks m (.super keyword name) receiver name
      (m.store.findFor receiver p name.lexeme) m := by
  obtain ⟨c, hstands⟩ := h
  obtain ⟨-, d, declaration, receiver, id, p, line, hdistance, hinside⟩ := hstands.super hm
  obtain ⟨g, hg, -, hthis⟩ := hinside.receiver
  obtain ⟨g', hg', -, hsuper, -⟩ := hinside.superclass
  exact ⟨receiver, p, fun r ↦ .ofSuper hdistance (Option.bind_eq_some_iff.2 ⟨g', hg', hsuper⟩)
    (Option.bind_eq_some_iff.2 ⟨g, hg, hthis⟩)⟩

/-- **A method that is found is selected**, or called if it is a getter. -/
theorem Evaluator.Asks.selects {budget : Nat} {e : Expr} {receiver : Value} {name : Token}
    {method : Closure} (h : (evaluatorOf budget).Asks m e receiver name (some method) m')
    (hm : m.memory.Sound o) (he : Runnable o m.memory m.here (.expr e)) :
    m.Selects budget e receiver name method m' := by
  obtain ⟨o₁, leads₁, hplain, hbindable⟩ := h.bindable hm he
  obtain ⟨o₂, leads₂, hcallable⟩ := (hbindable method rfl).bindTo leads₁.grows.sound hplain
    (e.marks receiver name.lexeme)
  have hthis := m'.valueIn_bindTo method receiver
  generalize hc : m'.boundMethod method (e.marks receiver name.lexeme) = c at hcallable
  have hdeclaration : c.declaration = method.declaration := by rw [← hc]; rfl
  have hmark : c.isInitializer = e.marks receiver name.lexeme := by rw [← hc]; rfl
  have hframe : c.frame = m'.store.frames.size := by rw [← hc]; rfl
  have hbound : (evaluatorOf budget).rawStep e m =
      (evaluatorOf budget).methodValue name c (m'.bindTo method receiver) := by
    rw [h.rawStep_eq, ← hc]
    rfl
  rw [Evaluator.methodValue, hdeclaration] at hbound
  constructor <;> intro hgetter <;> rw [hgetter] at hbound
  · have hnew : ((m'.bindTo method receiver).store.closures.push c)[
        (m'.bindTo method receiver).store.closures.size]? = some c := by simp
    exact ⟨_, _, hbound, hc ▸ hnew, c, hnew, hframe ▸ hthis, hmark⟩
  · intro v m'' hrun
    have hparameters : method.declaration.parameters = none := Option.isNone_iff_eq_none.1 hgetter
    obtain ⟨k, flow, hk, hperform, rfl⟩ := hcallable.of_invoke leads₂.grows.sound
      (by simp [hdeclaration, Function.arity, hparameters]) (by simp) (fun _ ↦ hframe ▸ hthis)
      (hbound.symm.trans hrun)
    exact ⟨k, flow, hk, hc ▸ hperform, congrFun (Closure.answer_eq hmark) flow⟩

/-- A call behind a property that is a method invokes it, bound and marked. -/
theorem Evaluator.Asks.invokes {budget : Nat} {e : Expr} {paren : Token} {arguments : List Expr}
    {receiver : Value} {name : Token} {method : Closure}
    (h : (evaluatorOf budget).Asks m e receiver name (some method) m')
    (hgetter : method.declaration.isGetter = false) (hm : m.memory.Sound o)
    (hcall : Runnable o m.memory m.here (.expr (.call e paren arguments))) :
    m.Invokes budget e paren arguments receiver name.lexeme
      (m'.boundMethod method (e.marks receiver name.lexeme)) := by
  intro v m₃ hrun
  have he : Runnable o m.memory m.here (.expr e) := hcall.part (by simp [Expr.parts])
  obtain ⟨id, m₁, hselect, hid, hselected⟩ := (h.selects hm he).function hgetter
  have hsound := sound_familyOf Watch.warranted_blind (budget + 1)
  have hevaluate : (evaluatorOf (budget + 1)).evaluate e m = .ok (.function id) m₁ := by
    show EStateM.bind ((evaluatorOf budget).rawStep e) _ m = _
    rw [EStateM.bind, hselect]
    rfl
  obtain ⟨o₁, leads₁, -⟩ := (hsound.evaluate hm he).of_ok hevaluate
  have harguments : ∀ a ∈ arguments, Runnable o₁ m₁.memory m₁.here (.expr a) := fun a ha ↦
    (hcall.part (by simp [Expr.parts, ha])).leads leads₁
  simp only [Evaluator.rawStep, bind, EStateM.bind, hevaluate] at hrun
  cases hvalues : (evaluatorOf (budget + 1)).evaluateAll arguments m₁ with
  | error halt m₂ =>
    rw [hvalues] at hrun
    cases hrun
  | ok values m₂ =>
    rw [hvalues] at hrun
    -- While the arguments are evaluated, the function keeps its number and its receiver.
    obtain ⟨o₂, leads₂, hplain⟩ :=
      (hsound.evaluateAll leads₁.grows.sound harguments).of_ok hvalues
    obtain ⟨c, hc, hthis, hmark⟩ := hselected
    cases hid.symm.trans hc
    have hkept := leads₂.grows.within
    obtain ⟨k, flow, hk, hperform, rfl⟩ := leads₂.grows.sound.of_call hplain
      (fun _ ↦ hkept.receivers _ _ hthis) (hkept.functions _ _ hc) hrun
    cases hk
    exact ⟨id, m₁, values, m₂, flow, hselect, hvalues, hperform,
      congrFun (Closure.answer_eq hmark) flow⟩

/-- A constructor makes an instance and then looks for its initializer. -/
theorem Machine.construct_eq (m : Machine) (id : ClassId) (arguments : List Value) (budget : Nat) :
    (evaluatorOf budget).construct id arguments m =
      (match (m.addInstance id).store.findMethod id "init" with
      | some method => do
        let _ ← (evaluatorOf budget).callFunction
          (← Evaluator.bindMethod method (.object m.store.objects.size) true) arguments
        return .object m.store.objects.size
      | none => return .object m.store.objects.size : Run Value) (m.addInstance id) :=
  rfl

/-- **A class that is called answers its new instance.** -/
theorem Machine.constructs {id : ClassId} {k : ClassObject} {arguments : List Value}
    (hm : m.memory.Sound o) (h : Applicable o m.memory m.here (.construct id k) arguments) :
    m.Constructs id arguments := by
  obtain ⟨-, harity, harguments⟩ := h
  have hadded : m.memory.Grows o o (m.addInstance id).memory := hm.addObject nofun
  have hobject : (Value.object m.store.objects.size).Plain (m.addInstance id).store :=
    ⟨by simp [Value.Live, addInstance, Store.addObject], rfl⟩
  have hfind : (m.addInstance id).store.findMethod id "init" = m.store.findMethod id "init" :=
    Store.findMethod_congr (by rfl) id "init"
  intro budget
  rw [construct_eq, hfind]
  cases hinit : m.store.findMethod id "init" with
  | none => rfl
  | some method =>
    have hmethod :=
      hadded.sound.items (.method method) (Store.has_of_findMethod (hfind.trans hinit))
    obtain ⟨o', leads, hcallable⟩ := Closure.Bindable.bindTo hmethod hadded.sound hobject true
    have hcall := hcallable.callFunction_eq leads.grows.sound (Store.arity_init harity method hinit)
      (fun v hv ↦ ((harguments v hv).later hadded.later).later leads.grows.later)
      (fun _ ↦ (m.addInstance id).valueIn_bindTo method _) budget
    exact Run.drop_map hcall

/-- The answers are given in every memory that a run comes to. -/
theorem warranted_answering : Watch.Warranted fun _ ν ↦ answering ν.store where
  enters := by
    rintro o lab ν m activity hm hready - hgrows
    constructor
    · exact hgrows.within
    · rintro c arguments rfl id e receiver method hid hselected
      exact Machine.answers_of_selected hm hready hgrows.within hid hselected
    · rintro keyword name rfl
      exact hready.asks_super hm
    · rintro e rfl budget receiver name method m' hasks
      exact hasks.selects hm hready
    · rintro e paren arguments rfl budget receiver name method m' hasks hgetter
      exact hasks.invokes hgetter hm hready
    · rintro id c arguments rfl
      exact Machine.constructs hm hready
  leaves _ _ _ _ hgrows := hgrows.within

end Warranted

/-- **Methods answer by the rule on every way to them**, but for a `super` that slips. Whatever
sources a machine runs, in every state of the history a function that was selected as a method
answers as the expression that has selected it says, a getter is answered for at once, and a class
that is called answers its new instance. -/
theorem Machine.methods_answer (arguments : List String) (world : World) (tracing : Bool)
    (turns : List Turn) :
    (answering ((initial arguments world tracing).after turns).store).FindsNothing
      (initial arguments world tracing) turns := by
  obtain ⟨o, leads, hnothing⟩ :=
    foreseen_after warranted_answering (rests_initial arguments world tracing) turns
  exact hnothing o _ leads.grows.sound.refl

/-- A class method that is called `init` answers its class if it is reached through `super`, and
what its body returns if it is called directly. -/
theorem Machine.super_init_answers_class :
    ((initial [] .empty false).after [⟨.empty, ⟨false, #[]⟩, 40,
      "class A \x7b class init() \x7b return true \x7d \x7d\n" ++
      "class B < A \x7b class go() \x7b return super.init() \x7d \x7d\n" ++
      "print(B.go())\nprint(B.init())"⟩]).world.output = "B\ntrue\n" := by
  decide +kernel

end AliasScript
