import AliasScript.Evaluation.Alias
import AliasScript.Proofs.Machine.Chain

/-!
# Sound memory

What holds of memory between any two steps of a run. All that memory holds is listed as *items*: the
value that a frame binds to a name, an element of an array or a field, a function, a method, a
declared class, a class with its superclass, an alias. An item is sound (`Item.Sound`) if what it
will be used for is in order: a function will be run in a frame inside its own one, so that frame
has to be the end of a chain of instances of the scopes around the function; an alias will be read
in its frame; only a variable may hold an alias; and a superclass is older than its class.

Items stay sound as memory grows (`Item.Sound.later`), so a step has to look at the items that it
adds only (`Memory.Sound.grows`).
-/

namespace AliasScript

/-! ### Nodes that can be run -/

/-- The program was accepted, and the uses of names in it have their distances in the table. -/
structure Memory.Knows (μ : Memory) (program : Program) : Prop where
  accepted : ∃ index source addresses, Accepted index source program addresses
  distances : ∀ v, Walks program v → ∀ t ∈ v.node.uses,
    t.index < μ.nextIndex ∧ μ.distances.find? t.index = v.start.distance? t.lexeme

/-- The visit belongs to a known program. -/
def Memory.Visits (μ : Memory) (v : Visit) : Prop :=
  ∃ program, μ.Knows program ∧ Walks program v

/-- The frame is where a node can be run: the frames from it outward are instances of the scopes
that are open at the visit of the node. -/
structure Stands (o : Labels) (μ : Memory) (f : FrameId) (v : Visit) : Prop where
  visits : μ.Visits v
  chain : Chain o μ.frames v.scopes v.start.scopes f

/-- The frame is where a node can be run, in some context. -/
def Runnable (o : Labels) (μ : Memory) (f : FrameId) (node : Node) : Prop :=
  ∃ c : Context, Stands o μ f ⟨c, node⟩

/-! ### Values -/

namespace Value

/-- What the value names is in the store. A class that is a value was declared. -/
def Live (s : Store) : Value → Prop
  | array id => id < s.arrays.size
  | object id => id < s.objects.size
  | classValue id => ∃ line, s.Line id line
  | reference id => id < s.references.size
  | _ => True

/-- Whether the value is an alias. -/
def isReference : Value → Bool
  | reference _ => true
  | _ => false

/-- The value is live and no alias. -/
def Plain (s : Store) (v : Value) : Prop :=
  v.Live s ∧ v.isReference = false

end Value

/-- The expressions whose raw value may be an alias. -/
def Expr.mayAlias : Expr → Bool
  | .reference _ _ | .variable _ => true
  | _ => false

/-- The statement declares a variable whose initial value may be an alias. -/
def Stmt.DeclaresAlias (s : Stmt) (x : String) : Prop :=
  ∃ name initial, s = .var name (some initial) ∧ name.lexeme = x ∧ name.Ordinary ∧
    initial.mayAlias = true

/-- A frame may bind a name to an alias only if its scope declares the name as a variable; the
outermost frame only if a program that was run does. -/
def MayAlias (o : Labels) (μ : Memory) (f : FrameId) (x : String) : Prop :=
  match o f with
  | some scope => x ∉ scope.bound ∧ ∃ s ∈ scope.body, s.DeclaresAlias x
  | none => ∃ program, μ.Knows program ∧ ∃ s ∈ program, s.DeclaresAlias x

/-! ### Items -/

/-- Something that memory holds. -/
inductive Item where
  /-- What a frame binds to a name. -/
  | binding (f : FrameId) (x : String) (v : Value)
  /-- An element of an array, or a field of an instance or of a class. -/
  | element (v : Value)
  | closure (c : Closure)
  | method (c : Closure)
  /-- A class that has a metaclass. -/
  | declared (id : ClassId)
  /-- A class and the one that it extends. -/
  | derived (id superclass : ClassId)
  | reference (r : Reference)

/-- The store holds the item. -/
def Store.Has (s : Store) : Item → Prop
  | .binding f x v => s.frames.valueIn f x = some v
  | .element v =>
    (∃ xs ∈ s.arrays, v ∈ xs) ∨ (∃ object ∈ s.objects, ∃ x, object.fields.get? x = some v) ∨
      ∃ c ∈ s.classes, ∃ x, c.fields.get? x = some v
  | .closure c => c ∈ s.closures
  | .method c => ∃ k ∈ s.classes, ∃ x, k.methods.get? x = some c
  | .declared id => (s.metaclass? id).isSome
  | .derived id p => s.superclass? id = some p
  | .reference r => r ∈ s.references

/-- A function that can be called. An initializer knows its receiver. -/
structure Closure.Callable (o : Labels) (μ : Memory) (c : Closure) : Prop where
  runnable : Runnable o μ c.frame (.function c.declaration)
  receiver : c.isInitializer = true → (μ.frames.valueIn c.frame "this").isSome

/-- A method that can be bound to a receiver: the receiver's frame is the only one that is missing.
-/
def Closure.Bindable (o : Labels) (μ : Memory) (c : Closure) : Prop :=
  ∃ k declaration scopes r outer,
    μ.Visits ⟨⟨k, ⟨.receiver declaration, none⟩ :: scopes, r⟩, .function c.declaration⟩ ∧
      r.scopes = ["this"] :: outer ∧ Chain o μ.frames scopes outer c.frame

/-- An alias that can be followed. -/
structure Reference.Followable (o : Labels) (μ : Memory) (r : Reference) : Prop where
  place : r.target.isPlace = true
  runnable : Runnable o μ r.frame (.expr r.target)

/-- A binding that is in order. -/
structure BindingSound (o : Labels) (μ : Memory) (f : FrameId) (x : String) (v : Value) : Prop where
  size : f < μ.frames.size
  live : v.Live μ.store
  declared : ∀ s, o f = some s → x ∈ s.declares
  mayAlias : v.isReference = true → MayAlias o μ f x

/-- The item is in order. -/
def Item.Sound (o : Labels) (μ : Memory) : Item → Prop
  | .binding f x v => BindingSound o μ f x v
  | .element v => v.Plain μ.store
  | .closure c => c.declaration.parameters.isSome ∧ c.Callable o μ
  | .method c => c.Bindable o μ
  | .declared id => (Value.classValue id).Live μ.store
  | .derived id p => p < id
  | .reference r => r.Followable o μ

/-- The statement has declared a class with a superclass, whose methods were made in the frame and
see the superclass there as `super`. -/
def Store.ClassFrame (s : Store) (declaration : Stmt) (f : FrameId) : Prop :=
  ∃ id p line, s.Line id (⟨declaration, f⟩ :: line) ∧ s.superclass? id = some p ∧
    s.frames.valueIn f "super" = some (.classValue p)

/-- The frame is an instance of a scope inside of an older frame, and binds the names that the scope
is entered with. -/
structure Memory.Instance (o : Labels) (μ : Memory) (f : FrameId) (s : Scope) : Prop where
  label : o f = some s
  parent : ∃ g < f, μ.frames.parent? f = some g
  bound : ∀ x ∈ s.bound, (μ.frames.valueIn f x).isSome
  superclass : ∀ declaration, s = .superclass declaration → μ.store.ClassFrame declaration f

/-- **Memory is in order.** -/
structure Memory.Sound (o : Labels) (μ : Memory) : Prop where
  /-- The outermost frame is an instance of no scope. -/
  outermost : o Store.globals = none
  size : Store.globals < μ.frames.size
  root : μ.frames.parent? Store.globals = none
  frames : ∀ f < μ.frames.size, f ≠ Store.globals → ∃ s, μ.Instance o f s
  items : ∀ i, μ.store.Has i → i.Sound o μ
  /-- Tokens that are not made yet have no distance. -/
  fresh : ∀ i, μ.nextIndex ≤ i → μ.distances.find? i = none

/-- The functions of a store are functions of another one, with the same numbers. -/
def Store.KeepsFunctions (s s' : Store) : Prop :=
  ∀ (id : Nat) (c : Closure), s.closures[id]? = some c → s'.closures[id]? = some c

/-- Memory has grown, and is in order. -/
structure Memory.Grows (o : Labels) (μ : Memory) (o' : Labels) (μ' : Memory) : Prop where
  later : μ.Later μ'
  functions : μ.store.KeepsFunctions μ'.store
  labels : o.Agrees o' μ.frames.size
  sound : μ'.Sound o'

/-! ### What stays in order -/

section Later

variable {o o' : Labels} {μ μ' μ'' : Memory} {f : FrameId}

/-- A program stays known. -/
theorem Memory.Knows.later {program : Program} (h : μ.Knows program) (hlater : μ.Later μ') :
    μ'.Knows program where
  accepted := h.accepted
  distances v hv t ht := by
    obtain ⟨hindex, hdistance⟩ := h.distances v hv t ht
    exact ⟨Nat.lt_of_lt_of_le hindex hlater.nextIndex, (hlater.distances _ hindex).trans hdistance⟩

/-- A visit stays one of a known program. -/
theorem Memory.Visits.later {v : Visit} (h : μ.Visits v) (hlater : μ.Later μ') : μ'.Visits v := by
  obtain ⟨program, hknows, hv⟩ := h
  exact ⟨program, hknows.later hlater, hv⟩

variable (hlater : μ.Later μ') (hlabels : o.Agrees o' μ.frames.size)

include hlater hlabels

/-- Where a node can be run, it can be run later. -/
theorem Stands.later {v : Visit} (h : Stands o μ f v) : Stands o' μ' f v :=
  ⟨h.visits.later hlater, h.chain.later hlater hlabels⟩

/-- The same in some context. -/
theorem Runnable.later {node : Node} (h : Runnable o μ f node) : Runnable o' μ' f node := by
  obtain ⟨c, hstands⟩ := h
  exact ⟨c, hstands.later hlater hlabels⟩

/-- A function that can be called can be called later. -/
theorem Closure.Callable.later {c : Closure} (h : c.Callable o μ) : c.Callable o' μ' :=
  ⟨h.runnable.later hlater hlabels, fun hinit ↦ hlater.bound _ _ (h.receiver hinit)⟩

/-- A method that can be bound can be bound later. -/
theorem Closure.Bindable.later {c : Closure} (h : c.Bindable o μ) : c.Bindable o' μ' := by
  obtain ⟨k, declaration, scopes, r, outer, hvisits, hscopes, hchain⟩ := h
  exact ⟨k, declaration, scopes, r, outer, hvisits.later hlater, hscopes,
    hchain.later hlater hlabels⟩

/-- An alias that can be followed can be followed later. -/
theorem Reference.Followable.later {r : Reference} (h : r.Followable o μ) : r.Followable o' μ' :=
  ⟨h.place, h.runnable.later hlater hlabels⟩

omit hlabels in
/-- What is in the store stays there. -/
theorem Value.Live.later {v : Value} (h : v.Live μ.store) : v.Live μ'.store := by
  cases v with
  | array id => exact Nat.lt_of_lt_of_le h hlater.arrays
  | object id => exact Nat.lt_of_lt_of_le h hlater.objects
  | classValue id =>
    obtain ⟨line, hline⟩ := h
    exact ⟨line, hline.later hlater.classes⟩
  | reference id => exact Nat.lt_of_lt_of_le h hlater.references
  | _ => trivial

omit hlabels in
/-- A value that is no alias stays alive. -/
theorem Value.Plain.later {v : Value} (h : v.Plain μ.store) : v.Plain μ'.store :=
  ⟨h.1.later hlater, h.2⟩

/-- A variable that may hold an alias may do so later. -/
theorem MayAlias.later {x : String} (h : MayAlias o μ f x) (hf : f < μ.frames.size) :
    MayAlias o' μ' f x := by
  unfold MayAlias at h ⊢
  rw [hlabels f hf]
  split at h
  · exact h
  · obtain ⟨program, hknows, hs⟩ := h
    exact ⟨program, hknows.later hlater, hs⟩

/-- A binding stays sound, with what it is bound to. -/
theorem BindingSound.later {x : String} {v : Value} (h : BindingSound o μ f x v) :
    BindingSound o' μ' f x v where
  size := Nat.lt_of_lt_of_le h.size hlater.frames
  live := h.live.later hlater
  declared := by
    rw [hlabels f h.size]
    exact h.declared
  mayAlias href := (h.mayAlias href).later hlater hlabels h.size

/-- **An item stays in order.** -/
theorem Item.Sound.later {i : Item} (h : i.Sound o μ) : i.Sound o' μ' := by
  cases i with
  | binding f x v => exact BindingSound.later hlater hlabels h
  | element v => exact Value.Plain.later hlater h
  | closure c => exact ⟨h.1, h.2.later hlater hlabels⟩
  | method c => exact Closure.Bindable.later hlater hlabels h
  | declared id => exact Value.Live.later (v := .classValue id) hlater h
  | derived id p => exact h
  | reference r => exact Reference.Followable.later hlater hlabels h

omit hlabels in
/-- The frame of a class stays what it is. -/
theorem Store.ClassFrame.later {declaration : Stmt} (h : μ.store.ClassFrame declaration f) :
    μ'.store.ClassFrame declaration f := by
  obtain ⟨id, p, line, hline, hsuperclass, hsuper⟩ := h
  refine ⟨id, p, line, hline.later hlater.classes, ?_,
    hlater.keywords f "super" _ (.inr rfl) hsuper⟩
  exact Store.superclass?_later hlater.classes hsuperclass

/-- An instance of a scope stays one, though more of its names may be bound. -/
theorem Memory.Instance.later {s : Scope} (h : μ.Instance o f s) (hf : f < μ.frames.size) :
    μ'.Instance o' f s where
  label := (hlabels f hf).trans h.label
  parent := h.parent.imp fun _ ↦ And.imp_right (hlater.parent f hf).trans
  bound x hx := hlater.bound f x (h.bound x hx)
  superclass declaration hs := (h.superclass declaration hs).later hlater

omit hlater hlabels in
/-- Memory that has grown is in order if the frames and the items that are new are. -/
theorem Memory.Sound.grows (h : μ.Sound o) (hlater : μ.Later μ')
    (hfunctions : μ.store.KeepsFunctions μ'.store) (hlabels : o.Agrees o' μ.frames.size)
    (hframes : ∀ f < μ'.frames.size, μ.frames.size ≤ f → ∃ s, μ'.Instance o' f s)
    (hitems : ∀ i, μ'.store.Has i → μ.store.Has i ∨ i.Sound o' μ')
    (hfresh : ∀ i, μ'.nextIndex ≤ i → μ'.distances.find? i = none) : μ.Grows o o' μ' where
  later := hlater
  functions := hfunctions
  labels := hlabels
  sound := {
    outermost := (hlabels _ h.size).trans h.outermost
    size := Nat.lt_of_lt_of_le h.size hlater.frames
    root := (hlater.parent _ h.size).trans h.root
    frames := fun f hf hglobals ↦
      (Nat.lt_or_ge f μ.frames.size).elim
        (fun hold ↦ (h.frames f hold hglobals).imp fun _ hs ↦ hs.later hlater hlabels hold)
        (hframes f hf)
    items := fun i hi ↦ (hitems i hi).elim (fun hold ↦ (h.items i hold).later hlater hlabels) id
    fresh := hfresh }

omit hlater hlabels in
/-- Memory that does not change has grown by nothing. -/
theorem Memory.Sound.refl (h : μ.Sound o) : μ.Grows o o μ :=
  ⟨.refl μ, fun _ _ hc ↦ hc, .refl o _, h⟩

omit hlater hlabels in
/-- Memory is in order under all labellings that say the same of its frames. -/
theorem Memory.Sound.relabel (h : μ.Sound o) (hlabels : o.Agrees o' μ.frames.size) :
    μ.Grows o o' μ :=
  h.grows (.refl μ) (fun _ _ hc ↦ hc) hlabels (fun _ hf hnew ↦ absurd hf (Nat.not_lt.2 hnew))
    (fun _ hi ↦ .inl hi) h.fresh

omit hlater hlabels in
/-- **Growth is transitive**, with the labels relabelled on the way. -/
theorem Memory.Grows.trans {o'' : Labels} (h : μ.Grows o o' μ') (h' : μ'.Grows o' o'' μ'') :
    μ.Grows o o'' μ'' :=
  ⟨h.later.trans h'.later, fun id c hc ↦ h'.functions id c (h.functions id c hc),
    h.labels.trans h'.labels h.later.frames, h'.sound⟩

end Later

/-! ### Frames that are there -/

/-- A frame where a node can be run is there. -/
theorem Stands.lt_size {o : Labels} {μ : Memory} {f : FrameId} {v : Visit} (h : Stands o μ f v)
    (hμ : μ.Sound o) : f < μ.frames.size :=
  h.chain.lt_size hμ.size

theorem Runnable.lt_size {o : Labels} {μ : Memory} {f : FrameId} {node : Node}
    (h : Runnable o μ f node) (hμ : μ.Sound o) : f < μ.frames.size := by
  obtain ⟨c, hstands⟩ := h
  exact hstands.lt_size hμ

/-- The frame of a function that can be called is there. -/
theorem Closure.Callable.lt_size {o : Labels} {μ : Memory} {c : Closure} (h : c.Callable o μ)
    (hμ : μ.Sound o) : c.frame < μ.frames.size :=
  h.runnable.lt_size hμ

theorem Closure.Bindable.lt_size {o : Labels} {μ : Memory} {c : Closure} (h : c.Bindable o μ)
    (hμ : μ.Sound o) : c.frame < μ.frames.size := by
  obtain ⟨_, _, _, _, _, -, -, hchain⟩ := h
  exact hchain.lt_size hμ.size

/-! ### Nodes that are held -/

/-- The node that is run when the item is used. -/
def Item.node? : Item → Option Node
  | .closure c | .method c => some (.function c.declaration)
  | .reference r => some (.expr r.target)
  | _ => none

/-- What is run when an item is used belongs to a known program. -/
theorem Item.Sound.visits {o : Labels} {μ : Memory} {i : Item} {node : Node} (h : i.Sound o μ)
    (hnode : i.node? = some node) : ∃ c : Context, μ.Visits ⟨c, node⟩ := by
  cases i with
  | closure c =>
    cases hnode
    obtain ⟨context, hstands⟩ := h.2.runnable
    exact ⟨context, hstands.visits⟩
  | method c =>
    cases hnode
    obtain ⟨_, _, _, _, _, hvisits, -⟩ := h
    exact ⟨_, hvisits⟩
  | reference r =>
    cases hnode
    obtain ⟨context, hstands⟩ := h.runnable
    exact ⟨context, hstands.visits⟩
  | binding f x v | element v | declared id | derived id p => cases hnode

end AliasScript
