import AliasScript.Proofs.Program.Likeness
import AliasScript.Store.Display
import AliasScript.Store.Equality

/-!
# Stores that are alike

Two stores are alike if the functions, methods and aliases in them are those of programs that are
alike, and everything else in them is the same. The numbers of things are the same as well, so a
value stands for things that are alike in both.

What a program can find out about a value is the same in stores that are alike: its text, what it
equals, which method has a name, and how it is called. All changes that a run makes keep stores
alike.
-/

namespace AliasScript

variable {L : Likeness}

/-! ### Things in stores -/

/-- The same function of programs that are alike. -/
structure Closure.Alike (L : Likeness) (c c' : Closure) : Prop where
  declaration : c.declaration.Alike L c'.declaration
  frame : c.frame = c'.frame
  isInitializer : c.isInitializer = c'.isInitializer

/-- The same class of programs that are alike. -/
structure ClassObject.Alike (L : Likeness) (c c' : ClassObject) : Prop where
  name : c.name = c'.name
  superclass : c.superclass = c'.superclass
  methods : ∀ x, Option.Rel (Closure.Alike L) (c.methods.get? x) (c'.methods.get? x)
  metaclass : c.metaclass = c'.metaclass
  fields : c.fields = c'.fields

/-- The same alias of programs that are alike. -/
structure Reference.Alike (L : Likeness) (r r' : Reference) : Prop where
  operator : L.mark r.operator r'.operator
  target : r.target.Alike L r'.target
  frame : r.frame = r'.frame

/-- What is called alike. -/
inductive Callee.Alike (L : Likeness) : Callee → Callee → Prop
  | function {c c' : Closure} : c.Alike L c' → Callee.Alike L (.function c) (.function c')
  | construct {id : ClassId} {c c' : ClassObject} : c.Alike L c' →
      Callee.Alike L (.construct id c) (.construct id c')
  | builtin {b : Builtin} : Callee.Alike L (.builtin b) (.builtin b)

/-- The things in two arrays are related, number by number. -/
def Numbered {α : Type} (R : α → α → Prop) (xs ys : Array α) : Prop :=
  ∀ i : Nat, Option.Rel R xs[i]? ys[i]?

/-- **Stores that are alike.** -/
structure Store.Alike (L : Likeness) (s s' : Store) : Prop where
  frames : s.frames = s'.frames
  arrays : s.arrays = s'.arrays
  closures : Numbered (Closure.Alike L) s.closures s'.closures
  classes : Numbered (ClassObject.Alike L) s.classes s'.classes
  objects : s.objects = s'.objects
  references : Numbered (Reference.Alike L) s.references s'.references
  builtins : s.builtins = s'.builtins

/-! ### Functions -/

namespace Function.Alike

variable {f f' : Function} (h : f.Alike L f')

include h

/-- Both functions have a name, or neither does. -/
theorem name : Option.Rel L.mark f.name f'.name := by
  cases h with | mk hname _ _ => exact hname

/-- Both have a list of parameters, or are getters. -/
theorem parameters : Option.Rel (List.Forall₂ L.mark) f.parameters f'.parameters := by
  cases h with | mk _ hparameters _ => exact hparameters

/-- The statements of the body are alike. -/
theorem body : List.Forall₂ (Stmt.Alike L) f.body f'.body := by
  cases h with | mk _ _ hbody => exact hbody

/-- The names of the parameters are the same. -/
theorem lexemes_eq :
    (f.parameters.getD []).map Token.lexeme = (f'.parameters.getD []).map Token.lexeme := by
  have hparameters := h.parameters
  generalize f.parameters = ps at hparameters
  generalize f'.parameters = ps' at hparameters
  cases hparameters with
  | none => rfl
  | some hps =>
    simp only [Option.getD_some]
    induction hps with
    | nil => rfl
    | cons ht _ ih => rw [List.map_cons, List.map_cons, L.lexeme_eq ht, ih]

/-- So both take as many arguments. -/
theorem arity_eq : f.arity = f'.arity := by
  have hlength := congrArg List.length h.lexemes_eq
  simpa [Function.arity] using hlength

/-- A function without a list of parameters is a getter. -/
theorem isGetter_eq : f.isGetter = f'.isGetter := by
  have hparameters := h.parameters
  unfold Function.isGetter
  generalize f.parameters = ps at hparameters
  generalize f'.parameters = ps' at hparameters
  cases hparameters <;> rfl

/-- Whatever is said of the name is the same. -/
theorem nameText_eq {α : Type} (default : α) (text : String → α) :
    f.name.elim default (fun t ↦ text t.lexeme) = f'.name.elim default fun t ↦ text t.lexeme := by
  have hname := h.name
  generalize f.name = name at hname
  generalize f'.name = name' at hname
  cases hname with
  | none => rfl
  | some ht => exact congrArg text (L.lexeme_eq ht)

end Function.Alike

/-! ### Things by their numbers -/

namespace Numbered

variable {α : Type} {R : α → α → Prop} {xs ys : Array α} (h : Numbered R xs ys)

include h

/-- There are as many things in both arrays. -/
theorem size_eq : xs.size = ys.size := by
  have hnone (i : Nat) : xs[i]? = none ↔ ys[i]? = none := by
    have hi := h i
    generalize xs[i]? = x at hi
    generalize ys[i]? = y at hi
    cases hi <;> simp
  simp only [Array.getElem?_eq_none_iff] at hnone
  have := hnone xs.size
  have := hnone ys.size
  omega

/-- Things that are related get the same number. -/
theorem push {x y : α} (hxy : R x y) : Numbered R (xs.push x) (ys.push y) := by
  intro i
  rw [Array.getElem?_push, Array.getElem?_push, h.size_eq]
  split
  · exact .some hxy
  · exact h i

/-- A change that keeps the relation may be made to the things with one number. -/
theorem modify {f g : α → α} (hfg : ∀ x y, R x y → R (f x) (g y)) (id : Nat) :
    Numbered R (xs.modify id f) (ys.modify id g) := by
  intro i
  rw [Array.getElem?_modify, Array.getElem?_modify]
  split
  · have hi := h i
    generalize xs[i]? = x at hi
    generalize ys[i]? = y at hi
    cases hi with
    | none => exact .none
    | some hxy => exact .some (hfg _ _ hxy)
  · exact h i

omit h in
/-- An array is related to itself if its things are. -/
theorem self (hself : ∀ x ∈ xs, R x x) : Numbered R xs xs := by
  intro i
  cases hi : xs[i]? with
  | none => exact .none
  | some x => exact .some (hself x (Array.mem_of_getElem? hi))

end Numbered

/-! ### Methods by their names -/

namespace Bindings

variable {α : Type} {R : α → α → Prop}

/-- A name is bound to things that are related, or keeps what it had. -/
theorem rel_insert {b b' : Bindings α} (h : ∀ x, Option.Rel R (b.get? x) (b'.get? x)) {a a' : α}
    (ha : R a a') (name x : String) :
    Option.Rel R ((b.insert name a).get? x) ((b'.insert name a').get? x) := by
  by_cases hx : x = name
  · subst hx
    rw [get?_insert_self, get?_insert_self]
    exact .some ha
  · rw [get?_insert_ne _ _ hx, get?_insert_ne _ _ hx]
    exact h x

/-- Bindings that are made from pairs, one pair after the other. -/
theorem rel_ofPairs {pairs pairs' : List (String × α)}
    (h : List.Forall₂ (fun p p' ↦ p.1 = p'.1 ∧ R p.2 p'.2) pairs pairs') (x : String) :
    Option.Rel R ((ofPairs pairs).get? x) ((ofPairs pairs').get? x) := by
  have hfold : ∀ b b' : Bindings α, (∀ x, Option.Rel R (b.get? x) (b'.get? x)) →
      Option.Rel R ((pairs.foldl (fun b pair ↦ insert b pair.1 pair.2) b).get? x)
        ((pairs'.foldl (fun b pair ↦ insert b pair.1 pair.2) b').get? x) := by
    induction h with
    | nil => exact fun _ _ hb ↦ hb x
    | cons hp _ ih =>
      intro b b' hb
      simp only [List.foldl_cons, hp.1]
      exact ih _ _ (rel_insert hb hp.2 _)
  exact hfold [] [] fun _ ↦ .none

end Bindings

/-- The methods of a class: the last declaration of a name counts on both sides. -/
theorem Store.methodTable_alike {fs fs' : List Function}
    (h : List.Forall₂ (Function.Alike L) fs fs') (frame : FrameId) (x : String) :
    Option.Rel (Closure.Alike L) ((methodTable frame fs).get? x)
      ((methodTable frame fs').get? x) := by
  refine Bindings.rel_ofPairs ?_ x
  induction h with
  | nil => exact .nil
  | @cons f f' _ _ hf _ ih =>
    have hname := hf.name
    simp only [List.filterMap_cons]
    generalize f.name = name at hname
    generalize f'.name = name' at hname
    cases hname with
    | none => exact ih
    | some ht => exact .cons ⟨L.lexeme_eq ht, hf, rfl, rfl⟩ ih

/-! ### What is found out about values -/

namespace Store.Alike

variable {s s' : Store} (h : s.Alike L s')

include h

/-- **Values are equal in both stores or in neither**, since only arrays are looked into. -/
theorem equal_eq (x y : Value) : s.equal x y = s'.equal x y := by
  have hwithin : ∀ n met pending,
      s.equalWithin n met pending = s'.equalWithin n met pending := by
    intro n
    induction n with
    | zero => exact fun _ _ ↦ rfl
    | succ n ih =>
      intro met pending
      simp only [equalWithin, h.arrays, ih]
  rw [equal, equal, hwithin, h.arrays]

/-- A class has the same name. -/
theorem className_eq (id : ClassId) :
    s.classes[id]?.elim "" ClassObject.name = s'.classes[id]?.elim "" ClassObject.name := by
  have hclass := h.classes id
  generalize s.classes[id]? = c at hclass
  generalize s'.classes[id]? = c' at hclass
  cases hclass with
  | none => rfl
  | some hc => exact hc.name

/-- The text of a value that is no array. -/
theorem textFlat_eq (v : Value) : s.textFlat v = s'.textFlat v := by
  cases v with
  | function id =>
    have hclosure := h.closures id
    simp only [textFlat]
    generalize s.closures[id]? = c at hclosure
    generalize s'.closures[id]? = c' at hclosure
    cases hclosure with
    | none => rfl
    | @some c c' hc =>
      have hname := hc.declaration.nameText_eq "<fn>" fun text ↦ "<fn " ++ text ++ ">"
      simp only [Option.bind_some]
      generalize c.declaration.name = name at hname
      generalize c'.declaration.name = name' at hname
      cases name <;> cases name' <;> exact hname
  | classValue id => exact h.className_eq id
  | object id =>
    simp only [textFlat, h.objects]
    cases s'.objects[id]? with
    | none => rfl
    | some object =>
      exact congrArg (fun name ↦ "<" ++ name ++ " instance>") (h.className_eq object.classId)
  | _ => rfl

/-- The text of an array, along a path of arrays. -/
theorem textWithin_eq (n : Nat) (path : Std.TreeSet Nat) (v : Value) :
    s.textWithin n path v = s'.textWithin n path v := by
  induction n generalizing path v with
  | zero =>
    simp only [textWithin]
    exact h.textFlat_eq v
  | succ n ih =>
    cases v with
    | array id =>
      simp only [textWithin, elements, h.arrays]
      rw [funext (ih (path.insert id))]
    | _ => exact h.textFlat_eq _

/-- **A value has the same text in both stores.** -/
theorem text_eq (v : Value) : s.text v = s'.text v := by
  rw [text_eq_textWithin, text_eq_textWithin, h.arrays, h.textWithin_eq]

/-- The search goes up the same superclasses and finds methods that are alike. -/
theorem findMethodWithin (name : String) (n : Nat) (id : ClassId) :
    Option.Rel (Closure.Alike L) (s.findMethodWithin name n id)
      (s'.findMethodWithin name n id) := by
  induction n generalizing id with
  | zero => exact .none
  | succ n ih =>
    have hclass := h.classes id
    simp only [Store.findMethodWithin]
    generalize s.classes[id]? = c at hclass
    generalize s'.classes[id]? = c' at hclass
    cases hclass with
    | none => exact .none
    | @some c c' hc =>
      have hmethod := hc.methods name
      dsimp only
      rw [hc.superclass]
      generalize c.methods.get? name = found at hmethod
      generalize c'.methods.get? name = found' at hmethod
      cases hmethod with
      | some hfound => exact .some hfound
      | none =>
        cases c'.superclass with
        | none => exact .none
        | some superclass => exact ih superclass

/-- A method with a name, if the class has one. -/
theorem findMethod (id : ClassId) (name : String) :
    Option.Rel (Closure.Alike L) (s.findMethod id name) (s'.findMethod id name) := by
  unfold Store.findMethod
  rw [h.classes.size_eq]
  exact h.findMethodWithin name _ id

/-- The class with the class methods has the same number. -/
theorem metaclass_eq (id : ClassId) :
    s.classes[id]?.bind ClassObject.metaclass = s'.classes[id]?.bind ClassObject.metaclass := by
  have hclass := h.classes id
  generalize s.classes[id]? = c at hclass
  generalize s'.classes[id]? = c' at hclass
  cases hclass with
  | none => rfl
  | some hc => exact hc.metaclass

/-- A class method is searched for in the class of the class. -/
theorem findClassMethod (id : ClassId) (name : String) :
    Option.Rel (Closure.Alike L) (s.findClassMethod id name) (s'.findClassMethod id name) := by
  unfold Store.findClassMethod
  rw [h.metaclass_eq id]
  cases s'.classes[id]?.bind ClassObject.metaclass with
  | none => exact .none
  | some metaclass => exact h.findMethod metaclass name

/-- A value is a getter in both stores or in neither. -/
theorem getter? (v : Value) : Option.Rel (Closure.Alike L) (s.getter? v) (s'.getter? v) := by
  cases v with
  | function id =>
    have hclosure := h.closures id
    simp only [Store.getter?]
    generalize s.closures[id]? = c at hclosure
    generalize s'.closures[id]? = c' at hclosure
    cases hclosure with
    | none => exact .none
    | some hc =>
      simp only [Option.filter, hc.declaration.isGetter_eq]
      split
      · exact .some hc
      · exact .none
  | _ => exact .none

/-- What a value is when it is called. -/
theorem callee? (v : Value) : Option.Rel (Callee.Alike L) (s.callee? v) (s'.callee? v) := by
  cases v with
  | function id =>
    have hclosure := h.closures id
    simp only [Store.callee?]
    generalize s.closures[id]? = c at hclosure
    generalize s'.closures[id]? = c' at hclosure
    cases hclosure with
    | none => exact .none
    | some hc => exact .some (.function hc)
  | classValue id =>
    have hclass := h.classes id
    simp only [Store.callee?]
    generalize s.classes[id]? = c at hclass
    generalize s'.classes[id]? = c' at hclass
    cases hclass with
    | none => exact .none
    | some hc => exact .some (.construct hc)
  | builtin id =>
    simp only [Store.callee?, h.builtins]
    cases s'.builtins[id]? with
    | none => exact .none
    | some b => exact .some .builtin
  | _ => exact .none

omit h in
/-- The same name is shown for both. -/
theorem calleeName_eq {callee callee' : Callee} (hcallee : callee.Alike L callee') :
    calleeName callee = calleeName callee' := by
  cases hcallee with
  | function hc => exact hc.declaration.nameText_eq "anonymous" id
  | construct hc => exact hc.name
  | builtin => rfl

/-- A constructor takes what its initializer takes, which is found alike. -/
theorem calleeArity_eq {callee callee' : Callee} (hcallee : callee.Alike L callee') :
    s.calleeArity callee = s'.calleeArity callee' := by
  cases hcallee with
  | function hc => exact hc.declaration.arity_eq
  | @construct id _ _ _ =>
    have hinit := h.findMethod id "init"
    simp only [calleeArity]
    generalize s.findMethod id "init" = found at hinit
    generalize s'.findMethod id "init" = found' at hinit
    cases hinit with
    | none => rfl
    | some hc => exact hc.declaration.arity_eq
  | builtin => rfl

/-! ### Changes -/

/-- A name is bound to the same value in the same frame. -/
theorem define (f : FrameId) (x : String) (v : Value) :
    Store.Alike L { s with frames := s.frames.define f x v }
      { s' with frames := s'.frames.define f x v } :=
  { h with frames := by rw [h.frames] }

/-- An array is changed in both stores. -/
theorem changeArray (id : Nat) (f : Array Value → Array Value) :
    Store.Alike L { s with arrays := s.arrays.modify id f }
      { s' with arrays := s'.arrays.modify id f } :=
  { h with arrays := by rw [h.arrays] }

/-- A field of an instance is set in both stores. -/
theorem changeObject (id : Nat) (f : Object → Object) :
    Store.Alike L { s with objects := s.objects.modify id f }
      { s' with objects := s'.objects.modify id f } :=
  { h with objects := by rw [h.objects] }

/-- A field of a class is set in both stores. -/
theorem setClassField (id : Nat) (x : String) (v : Value) :
    Store.Alike L
      { s with classes := s.classes.modify id fun c ↦ { c with fields := c.fields.insert x v } }
      { s' with classes := s'.classes.modify id fun c ↦
          { c with fields := c.fields.insert x v } } := by
  refine { h with classes := h.classes.modify (fun c c' hc ↦ ?_) id }
  exact { hc with fields := by rw [hc.fields] }

/-- A new frame gets the same number. -/
theorem addFrame (parent : FrameId) (bindings : Bindings Value) :
    (s.addFrame parent bindings).1 = (s'.addFrame parent bindings).1 ∧
      Store.Alike L (s.addFrame parent bindings).2 (s'.addFrame parent bindings).2 :=
  ⟨congrArg Array.size h.frames, { h with frames := by rw [Store.addFrame, h.frames]; rfl }⟩

theorem addArray (elements : Array Value) :
    (s.addArray elements).1 = (s'.addArray elements).1 ∧
      Store.Alike L (s.addArray elements).2 (s'.addArray elements).2 :=
  ⟨by simp only [Store.addArray, h.arrays],
    { h with arrays := by rw [Store.addArray, h.arrays]; rfl }⟩

theorem addObject (object : Object) :
    (s.addObject object).1 = (s'.addObject object).1 ∧
      Store.Alike L (s.addObject object).2 (s'.addObject object).2 :=
  ⟨congrArg Array.size h.objects, { h with objects := by rw [Store.addObject, h.objects]; rfl }⟩

theorem addBuiltin (b : Builtin) :
    (s.addBuiltin b).1 = (s'.addBuiltin b).1 ∧
      Store.Alike L (s.addBuiltin b).2 (s'.addBuiltin b).2 :=
  ⟨by simp only [Store.addBuiltin, h.builtins],
    { h with builtins := by rw [Store.addBuiltin, h.builtins]; rfl }⟩

theorem addClosure {c c' : Closure} (hc : c.Alike L c') :
    (s.addClosure c).1 = (s'.addClosure c').1 ∧
      Store.Alike L (s.addClosure c).2 (s'.addClosure c').2 :=
  ⟨congrArg Value.function h.closures.size_eq, { h with closures := h.closures.push hc }⟩

theorem addReference {r r' : Reference} (hr : r.Alike L r') :
    (s.addReference r).1 = (s'.addReference r').1 ∧
      Store.Alike L (s.addReference r).2 (s'.addReference r').2 :=
  ⟨congrArg Value.reference h.references.size_eq, { h with references := h.references.push hr }⟩

/-- A new class, whose methods are alike. -/
theorem addClass {c c' : ClassObject} (hc : c.Alike L c') :
    (s.addClass c).1 = (s'.addClass c').1 ∧
      Store.Alike L (s.addClass c).2 (s'.addClass c').2 :=
  ⟨h.classes.size_eq, { h with classes := h.classes.push hc }⟩

/-- The frame of `super`, if there is a superclass. -/
theorem addClassFrame (outer : FrameId) (superclass : Option ClassId) :
    (s.addClassFrame outer superclass).1 = (s'.addClassFrame outer superclass).1 ∧
      Store.Alike L (s.addClassFrame outer superclass).2 (s'.addClassFrame outer superclass).2 := by
  cases superclass with
  | none => exact ⟨rfl, h⟩
  | some id => exact h.addFrame outer _

/-- **A class is declared in both stores**, under the same number. -/
theorem addDeclared (outer : FrameId) (name : String) (superclass : Option ClassId)
    {methods methods' classMethods classMethods' : List Function}
    (hmethods : List.Forall₂ (Function.Alike L) methods methods')
    (hclassMethods : List.Forall₂ (Function.Alike L) classMethods classMethods') :
    (s.addDeclared outer name superclass methods classMethods).1 =
        (s'.addDeclared outer name superclass methods' classMethods').1 ∧
      Store.Alike L (s.addDeclared outer name superclass methods classMethods).2
        (s'.addDeclared outer name superclass methods' classMethods').2 := by
  have hsuper : (superclass.bind fun id ↦ s.classes[id]?.bind ClassObject.metaclass) =
      superclass.bind fun id ↦ s'.classes[id]?.bind ClassObject.metaclass := by
    simp only [h.metaclass_eq]
  obtain ⟨hframe, hs⟩ := h.addClassFrame outer superclass
  simp only [Store.addDeclared, hframe, hsuper]
  generalize (s'.addClassFrame outer superclass).1 = frame
  generalize (superclass.bind fun id ↦ s'.classes[id]?.bind ClassObject.metaclass) = superMeta
  have hmetaclass : ClassObject.Alike L
      ⟨name ++ " metaclass", superMeta, methodTable frame classMethods, none, []⟩
      ⟨name ++ " metaclass", superMeta, methodTable frame classMethods', none, []⟩ :=
    ⟨rfl, rfl, methodTable_alike hclassMethods frame, rfl, rfl⟩
  obtain ⟨hmeta, hs⟩ := hs.addClass hmetaclass
  rw [hmeta]
  exact hs.addClass ⟨rfl, rfl, methodTable_alike hmethods frame, rfl, rfl⟩

end Store.Alike

end AliasScript
