import AliasScript.Store

/-!
# Lines of classes

A class that a statement declares, the class that it extends, and so on up to a class without a
superclass, are a *line*. `Store.Line` says of a class which statements declared the classes of its
line, the nearest first, and in which frames their methods were made. Classes only ever get fields,
so a line stays what it is (`Line.later`).

Methods are looked for in the store, along the numbers of superclasses, and class methods along the
numbers of metaclasses. What is found is what the statements of the line say: the last declaration
of the name in the nearest class that has one (`Line.findMethod`, `Line.findClassMethod`). For class
methods this needs that the metaclasses of a line extend each other as its classes do
(`Line.superclass?_metaclass`).
-/

namespace AliasScript

/-! ### Declarations of methods -/

/-- The methods of the instances of a declared class. -/
def Stmt.methods : Stmt → List Function
  | .classDecl _ _ methods _ => methods
  | _ => []

/-- The methods of a declared class itself. -/
def Stmt.classMethods : Stmt → List Function
  | .classDecl _ _ _ classMethods => classMethods
  | _ => []

/-- The last function of a name. -/
def lastNamed (x : String) (functions : List Function) : Option Function :=
  functions.reverse.find? fun f ↦ f.name.any (·.lexeme == x)

/-- Where a class comes from: the statement that declared it, and the frame that its methods were
made in. -/
structure Origin where
  declaration : Stmt
  frame : FrameId

/-- The nearest declaration of a method along a line, of one kind of methods. -/
def nearest (kind : Stmt → List Function) (x : String) (line : List Origin) : Option Closure :=
  line.findSome? fun origin ↦
    (lastNamed x (kind origin.declaration)).map fun f ↦ ⟨f, origin.frame, false⟩

/-- The nearest method is the last one of the first class, or else one further on. -/
theorem nearest_cons (kind : Stmt → List Function) (x : String) (origin : Origin)
    (line : List Origin) :
    nearest kind x (origin :: line) =
      ((lastNamed x (kind origin.declaration)).map fun f ↦ ⟨f, origin.frame, false⟩).or
        (nearest kind x line) := by
  unfold nearest
  rw [List.findSome?_cons]
  cases (lastNamed x (kind origin.declaration)).map _ <;> rfl

namespace Bindings

variable {α : Type}

/-- Of several things bound to one name the last counts. -/
theorem get?_foldl_insert (pairs : List (String × α)) (b : Bindings α) (x : String) :
    (pairs.foldl (fun b pair ↦ insert b pair.1 pair.2) b).get? x =
      ((pairs.reverse.find? (·.1 == x)).map Prod.snd).or (b.get? x) := by
  induction pairs generalizing b with
  | nil => rfl
  | cons pair rest ih =>
    rw [List.foldl_cons, ih, List.reverse_cons, List.find?_append, Option.map_or, Option.or_assoc]
    congr 1
    by_cases hx : x = pair.1
    · subst hx
      rw [get?_insert_self]
      simp
    · have hne : (pair.1 == x) = false := by simpa using fun h : pair.1 = x ↦ hx h.symm
      rw [get?_insert_ne _ _ hx]
      simp [hne]

end Bindings

/-- **A table of methods has the last declaration of each name.** -/
theorem Store.get?_methodTable (frame : FrameId) (methods : List Function) (x : String) :
    (methodTable frame methods).get? x =
      (lastNamed x methods).map fun f ↦ ⟨f, frame, false⟩ := by
  unfold methodTable Bindings.ofPairs lastNamed
  rw [Bindings.get?_foldl_insert, ← List.filterMap_reverse]
  generalize methods.reverse = functions
  show Option.or _ none = _
  rw [Option.or_none]
  induction functions with
  | nil => rfl
  | cons f rest ih =>
    cases hname : f.name with
    | none => simpa [hname] using ih
    | some name =>
      by_cases h : name.lexeme = x
      · simp [hname, h]
      · simpa [hname, h] using ih

/-! ### Classes that are declared -/

/-- Everything of a class but its fields, which is what it is for ever. -/
def ClassObject.shape (c : ClassObject) : ClassObject :=
  { c with fields := [] }

namespace Store

variable {s s' : Store} {id p j : ClassId} {line : List Origin} {x : String}

/-- The shape of a class. -/
def shape? (s : Store) (id : ClassId) : Option ClassObject :=
  s.classes[id]?.map ClassObject.shape

/-- The superclass of a class. -/
def superclass? (s : Store) (id : ClassId) : Option ClassId :=
  s.classes[id]?.bind ClassObject.superclass

/-- The class so many steps above a class. -/
def ancestor? (s : Store) (id : ClassId) : Nat → Option ClassId
  | 0 => some id
  | n + 1 => (s.superclass? id).bind fun p ↦ ancestor? s p n

/-- The metaclass of a class. -/
def metaclass? (s : Store) (id : ClassId) : Option ClassId :=
  s.classes[id]?.bind ClassObject.metaclass

/-- A superclass is told by the shape of the class. -/
theorem superclass?_eq (s : Store) (id : ClassId) :
    s.superclass? id = (s.shape? id).bind ClassObject.superclass := by
  unfold superclass? shape?
  cases s.classes[id]? <;> rfl

/-- So is the class with the class methods. -/
theorem metaclass?_eq (s : Store) (id : ClassId) :
    s.metaclass? id = (s.shape? id).bind ClassObject.metaclass := by
  unfold metaclass? shape?
  cases s.classes[id]? <;> rfl

/-- Superclasses stay what they are, if shapes do. -/
theorem superclass?_later (hshape : ∀ id c, s.shape? id = some c → s'.shape? id = some c)
    (h : s.superclass? id = some p) : s'.superclass? id = some p := by
  rw [superclass?_eq] at h ⊢
  obtain ⟨c, hc, hp⟩ := Option.bind_eq_some_iff.1 h
  exact Option.bind_eq_some_iff.2 ⟨c, hshape _ _ hc, hp⟩

theorem metaclass?_later (hshape : ∀ id c, s.shape? id = some c → s'.shape? id = some c)
    (h : s.metaclass? id = some j) : s'.metaclass? id = some j := by
  rw [metaclass?_eq] at h ⊢
  obtain ⟨c, hc, hj⟩ := Option.bind_eq_some_iff.1 h
  exact Option.bind_eq_some_iff.2 ⟨c, hshape _ _ hc, hj⟩

/-- A class with a shape is there. -/
theorem lt_of_shape? {c : ClassObject} (h : s.shape? id = some c) : id < s.classes.size := by
  obtain ⟨c', hc', -⟩ := Option.map_eq_some_iff.1 h
  exact (Array.getElem?_eq_some_iff.1 hc').1

/-- A class that is added changes no other. -/
theorem shape?_addClass (k : ClassObject) (id : ClassId) (c : ClassObject)
    (h : s.shape? id = some c) : (s.addClass k).2.shape? id = some c := by
  rw [← h]
  simp [shape?, addClass, Array.getElem?_push, Nat.ne_of_lt (lt_of_shape? h)]

/-- A new class has the shape that it was made with. -/
theorem shape?_addClass_self (s : Store) (c : ClassObject) :
    (s.addClass c).2.shape? s.classes.size = some c.shape := by
  simp [shape?, addClass]

/-- Fields are no part of the shape. -/
theorem shape?_setClassField (k : ClassId) (name : String) (v : Value) (id : ClassId) :
    shape? { s with classes := s.classes.modify k fun c ↦
      { c with fields := c.fields.insert name v } } id = s.shape? id := by
  unfold shape?
  rw [Array.getElem?_modify]
  split
  · cases s.classes[id]? <;> rfl
  · rfl

/-- Looking for a method in a class of a shape. -/
theorem findMethodWithin_of_shape? {c : ClassObject} (h : s.shape? id = some c) (n : Nat) :
    s.findMethodWithin x (n + 1) id =
      (c.methods.get? x).or (c.superclass.bind (s.findMethodWithin x n)) := by
  obtain ⟨c', hc', rfl⟩ := Option.map_eq_some_iff.1 h
  rw [findMethodWithin, hc']
  rfl

/-- **The class was declared, and so were the classes above it.** Each has a metaclass, which
extends the metaclass of its superclass. -/
inductive Line (s : Store) : ClassId → List Origin → Prop
  | base {id j : ClassId} {name : Token} {methods classMethods : List Function} {frame : FrameId} :
      s.shape? id = some ⟨name.lexeme, none, methodTable frame methods, some j, []⟩ →
      s.shape? j =
        some ⟨name.lexeme ++ " metaclass", none, methodTable frame classMethods, none, []⟩ →
      Line s id [⟨.classDecl name none methods classMethods, frame⟩]
  | derived {id j p jp : ClassId} {name superclass : Token} {methods classMethods : List Function}
      {frame : FrameId} {line : List Origin} :
      s.shape? id = some ⟨name.lexeme, some p, methodTable frame methods, some j, []⟩ →
      s.shape? j =
        some ⟨name.lexeme ++ " metaclass", some jp, methodTable frame classMethods, none, []⟩ →
      Line s p line → p < id → s.metaclass? p = some jp → jp < j →
      Line s id (⟨.classDecl name (some superclass) methods classMethods, frame⟩ :: line)

namespace Line

/-- A line starts at a class that is there. -/
theorem lt_size (h : s.Line id line) : id < s.classes.size := by
  cases h with
  | base hclass | derived hclass => exact lt_of_shape? hclass

/-- The class with the class methods is there as well. -/
theorem metaclass_lt_size (h : s.Line id line) (hj : s.metaclass? id = some j) :
    j < s.classes.size := by
  cases h with
  | base hclass hmeta | derived hclass hmeta =>
    rw [metaclass?_eq, hclass] at hj
    cases hj
    exact lt_of_shape? hmeta

/-- **A line stays what it is.** -/
theorem later (h : s.Line id line) (hshape : ∀ id c, s.shape? id = some c → s'.shape? id = some c) :
    s'.Line id line := by
  induction h with
  | base hclass hmeta => exact .base (hshape _ _ hclass) (hshape _ _ hmeta)
  | derived hclass hmeta _ hlt hsuper hlt' ih =>
    exact .derived (hshape _ _ hclass) (hshape _ _ hmeta) ih hlt
      (metaclass?_later hshape hsuper) hlt'

/-- **The superclass of a class has the rest of its line.** -/
theorem of_superclass? (h : s.Line id line) (hp : s.superclass? id = some p) :
    p < id ∧ s.Line p line.tail := by
  rw [superclass?_eq] at hp
  cases h with
  | base hclass _ =>
    rw [hclass] at hp
    cases hp
  | derived hclass _ hline hlt _ _ =>
    rw [hclass] at hp
    cases hp
    exact ⟨hlt, hline⟩

/-- **A line is finite**: its classes are as many as there are origins, and above the last there is
none. -/
theorem ancestor? (h : s.Line id line) :
    (∀ n < line.length, ∃ k, s.ancestor? id n = some k ∧ s.Line k (line.drop n)) ∧
      s.ancestor? id line.length = none := by
  induction line generalizing id with
  | nil => cases h
  | cons origin rest ih =>
    cases hp : s.superclass? id with
    | none =>
      -- A class without a superclass is the last of its line.
      have hrest : rest = [] := by
        rw [superclass?_eq] at hp
        cases h with
        | base => rfl
        | derived hclass =>
          rw [hclass] at hp
          cases hp
      subst hrest
      refine ⟨fun n hn ↦ ?_, by simp [Store.ancestor?, hp]⟩
      cases Nat.lt_one_iff.1 hn
      exact ⟨id, rfl, h⟩
    | some p =>
      obtain ⟨habove, hend⟩ := ih (h.of_superclass? hp).2
      refine ⟨fun n hn ↦ ?_, by simp [Store.ancestor?, hp, hend]⟩
      cases n with
      | zero => exact ⟨id, rfl, h⟩
      | succ n =>
        obtain ⟨k, hk, hline⟩ := habove n (Nat.lt_of_succ_lt_succ hn)
        exact ⟨k, by simp [Store.ancestor?, hp, hk], hline⟩

/-- **A class has a metaclass**, and that extends the metaclass of the superclass. -/
theorem superclass?_metaclass (h : s.Line id line) :
    ∃ j, s.metaclass? id = some j ∧ s.superclass? j = (s.superclass? id).bind s.metaclass? := by
  cases h with
  | @base _ j _ _ _ _ hclass hmeta =>
    refine ⟨j, by rw [metaclass?_eq, hclass]; rfl, ?_⟩
    rw [superclass?_eq, superclass?_eq, hclass, hmeta]
    rfl
  | @derived _ j _ _ _ _ _ _ _ _ hclass hmeta _ _ hsuper _ =>
    refine ⟨j, by rw [metaclass?_eq, hclass]; rfl, ?_⟩
    rw [superclass?_eq, superclass?_eq, hclass, hmeta]
    exact hsuper.symm

/-- **A method that is found is the nearest one that the line declares.** -/
theorem findMethodWithin (h : s.Line id line) {n : Nat} (hn : id < n) :
    s.findMethodWithin x n id = nearest Stmt.methods x line := by
  induction h generalizing n with
  | base hclass _ =>
    obtain ⟨n, rfl⟩ := Nat.exists_eq_add_one_of_ne_zero (Nat.ne_zero_of_lt hn)
    rw [findMethodWithin_of_shape? hclass, nearest_cons, get?_methodTable]
    rfl
  | derived hclass _ _ hlt _ _ ih =>
    obtain ⟨n, rfl⟩ := Nat.exists_eq_add_one_of_ne_zero (Nat.ne_zero_of_lt hn)
    -- The superclass is older than the class, so what is left of the bound will do for it.
    rw [findMethodWithin_of_shape? hclass, nearest_cons, get?_methodTable,
      ← ih (Nat.lt_of_lt_of_le hlt (Nat.le_of_lt_succ hn))]
    rfl

/-- **The method that is found is the nearest one of the line.** -/
theorem findMethod (h : s.Line id line) : s.findMethod id x = nearest Stmt.methods x line :=
  h.findMethodWithin h.lt_size

/-- The same of the metaclass and the class methods. -/
theorem findMethodWithin_metaclass (h : s.Line id line) (hj : s.metaclass? id = some j) {n : Nat}
    (hn : j < n) : s.findMethodWithin x n j = nearest Stmt.classMethods x line := by
  rw [metaclass?_eq] at hj
  induction h generalizing j n with
  | base hclass hmeta =>
    rw [hclass] at hj
    cases hj
    obtain ⟨n, rfl⟩ := Nat.exists_eq_add_one_of_ne_zero (Nat.ne_zero_of_lt hn)
    rw [findMethodWithin_of_shape? hmeta, nearest_cons, get?_methodTable]
    rfl
  | derived hclass hmeta _ _ hsuper hlt ih =>
    rw [hclass] at hj
    cases hj
    obtain ⟨n, rfl⟩ := Nat.exists_eq_add_one_of_ne_zero (Nat.ne_zero_of_lt hn)
    rw [findMethodWithin_of_shape? hmeta, nearest_cons, get?_methodTable,
      ← ih (metaclass?_eq s _ ▸ hsuper) (Nat.lt_of_lt_of_le hlt (Nat.le_of_lt_succ hn))]
    rfl

/-- **A class method that is found is the nearest one that the line declares.** -/
theorem findClassMethod (h : s.Line id line) :
    s.findClassMethod id x = nearest Stmt.classMethods x line := by
  obtain ⟨j, hj, -⟩ := h.superclass?_metaclass
  show (s.metaclass? id).bind (s.findMethod · x) = _
  rw [hj]
  exact h.findMethodWithin_metaclass hj (h.metaclass_lt_size hj)

end Line

/-! ### New classes -/

section Declared

variable (outer : FrameId) (name : String) (found : Option ClassId)
  (methods classMethods : List Function)

/-- The frame of `super` changes no class. -/
theorem shape?_addClassFrame (id : ClassId) :
    (s.addClassFrame outer found).2.shape? id = s.shape? id := by
  cases found <;> rfl

/-- A class that is declared changes no other. -/
theorem shape?_addDeclared (id : ClassId) (c : ClassObject) (h : s.shape? id = some c) :
    (s.addDeclared outer name found methods classMethods).2.shape? id = some c :=
  shape?_addClass _ id c
    (shape?_addClass _ id c ((shape?_addClassFrame outer found id).trans h))

/-- A class that is declared has the superclass that was found for it. -/
theorem superclass?_addDeclared :
    (s.addDeclared outer name found methods classMethods).2.superclass?
      (s.addDeclared outer name found methods classMethods).1 = found := by
  rw [superclass?_eq]
  exact congrArg (Option.bind · ClassObject.superclass) (shape?_addClass_self _ _)

/-- **A class that is declared has a line**, if its superclass has one. -/
theorem line_addDeclared (name : Token) {superclass : Option Token}
    (hsome : found.isSome = superclass.isSome) (hfound : ∀ p ∈ found, ∃ line, s.Line p line) :
    ∃ line, (s.addDeclared outer name.lexeme found methods classMethods).2.Line
      (s.addDeclared outer name.lexeme found methods classMethods).1
      (⟨.classDecl name superclass methods classMethods, (s.addClassFrame outer found).1⟩ ::
        line) := by
  have hclass := shape?_addClass_self
  cases found with
  | none =>
    cases superclass with
    | some => cases hsome
    | none => exact ⟨[], .base (hclass _ _) (shape?_addClass _ _ _ (hclass _ _))⟩
  | some p =>
    cases superclass with
    | none => cases hsome
    | some superclass =>
      -- The superclass keeps its line and its metaclass, which the new metaclass extends.
      obtain ⟨line, hline⟩ := hfound p rfl
      obtain ⟨jp, hjp, -⟩ := hline.superclass?_metaclass
      have hlater := shape?_addDeclared (s := s) outer name.lexeme (some p) methods classMethods
      refine ⟨line, .derived (hclass _ _) (shape?_addClass _ _ _ ?_) (hline.later hlater) ?_
        (metaclass?_later hlater hjp) ?_⟩
      · have hsuper :
            ((some p).bind fun id ↦ s.classes[id]?.bind ClassObject.metaclass) = some jp :=
          hjp
        rw [← hsuper]
        exact hclass _ _
      · show p < (s.classes.push _).size
        rw [Array.size_push]
        exact Nat.lt_succ_of_lt hline.lt_size
      · exact hline.metaclass_lt_size hjp

end Declared

end Store

end AliasScript
