import AliasScript.Machine
import AliasScript.Proofs.Scope.Lawful
import AliasScript.Proofs.Store.Lineage

/-!
# Frames and scopes

Every frame but the outermost is an instance of a scope of some program: of a block that was
entered, of a function that was called, of the receiver that a method was bound to, or of the
superclass of a class that was declared. Which one it is cannot be read off the frame. `Labels` say
it, and a frame keeps its label for ever.

A `Chain` says that the frames from a given one outward are, one by one, instances of the scopes
that are open at a visit, and that every name seen in them so far is bound, unless it is the name of
a declaration that is not complete. Memory only grows (`Memory.Later`), and a chain stays a chain.
-/

namespace AliasScript

/-! ### Memory -/

/-- The part of the state that the meaning of names and values depends on. -/
structure Memory where
  store : Store
  distances : Distances
  nextIndex : Nat

/-- The memory of a machine. -/
def Machine.memory (m : Machine) : Memory :=
  ⟨m.store, m.distances, m.nextIndex⟩

namespace Memory

/-- The frames of the store. -/
abbrev frames (μ : Memory) : Frames :=
  μ.store.frames

/-- Nothing is removed from memory: frames keep their parents and their names, receivers and
superclasses stay what they are, things keep their numbers and classes all but their fields, and
uses of names that were resolved keep their distances. -/
structure Later (μ μ' : Memory) : Prop where
  frames : μ.frames.size ≤ μ'.frames.size
  parent : ∀ f < μ.frames.size, μ'.frames.parent? f = μ.frames.parent? f
  bound : ∀ f x, (μ.frames.valueIn f x).isSome → (μ'.frames.valueIn f x).isSome
  keywords : ∀ f x v, x = "this" ∨ x = "super" → μ.frames.valueIn f x = some v →
    μ'.frames.valueIn f x = some v
  arrays : μ.store.arrays.size ≤ μ'.store.arrays.size
  objects : μ.store.objects.size ≤ μ'.store.objects.size
  classes : ∀ id c, μ.store.shape? id = some c → μ'.store.shape? id = some c
  references : μ.store.references.size ≤ μ'.store.references.size
  nextIndex : μ.nextIndex ≤ μ'.nextIndex
  distances : ∀ i < μ.nextIndex, μ'.distances.find? i = μ.distances.find? i

variable {μ μ' μ'' : Memory}

theorem Later.refl (μ : Memory) : Later μ μ :=
  ⟨Nat.le_refl _, fun _ _ ↦ rfl, fun _ _ h ↦ h, fun _ _ _ _ h ↦ h, Nat.le_refl _, Nat.le_refl _,
    fun _ _ h ↦ h, Nat.le_refl _, Nat.le_refl _, fun _ _ ↦ rfl⟩

theorem Later.trans (h : Later μ μ') (h' : Later μ' μ'') : Later μ μ'' where
  frames := Nat.le_trans h.frames h'.frames
  parent f hf := by rw [h'.parent f (Nat.lt_of_lt_of_le hf h.frames), h.parent f hf]
  bound f x hx := h'.bound f x (h.bound f x hx)
  keywords f x v hx hv := h'.keywords f x v hx (h.keywords f x v hx hv)
  arrays := Nat.le_trans h.arrays h'.arrays
  objects := Nat.le_trans h.objects h'.objects
  classes id c hc := h'.classes id c (h.classes id c hc)
  references := Nat.le_trans h.references h'.references
  nextIndex := Nat.le_trans h.nextIndex h'.nextIndex
  distances i hi := by rw [h'.distances i (Nat.lt_of_lt_of_le hi h.nextIndex), h.distances i hi]

end Memory

/-! ### Labels -/

/-- The scope that each frame is an instance of; the outermost frame is one of none. -/
abbrev Labels := FrameId → Option Scope

/-- Two labellings say the same of the first so many frames. -/
def Labels.Agrees (o o' : Labels) (count : Nat) : Prop :=
  ∀ f < count, o' f = o f

namespace Labels

variable {o o' o'' : Labels} {count count' : Nat}

theorem Agrees.refl (o : Labels) (count : Nat) : o.Agrees o count := fun _ _ ↦ rfl

theorem Agrees.trans (h : o.Agrees o' count) (h' : o'.Agrees o'' count') (hle : count ≤ count') :
    o.Agrees o'' count := fun f hf ↦ by
  rw [h' f (Nat.lt_of_lt_of_le hf hle), h f hf]

/-- Labels the next frame. -/
def push (o : Labels) (count : Nat) (s : Scope) : Labels := fun f ↦
  if f = count then some s else o f

@[simp] theorem push_self (o : Labels) (count : Nat) (s : Scope) : o.push count s count = some s :=
  if_pos rfl

theorem agrees_push (o : Labels) (count : Nat) (s : Scope) : o.Agrees (o.push count s) count :=
  fun _ hf ↦ if_neg (Nat.ne_of_lt hf)

end Labels

/-! ### Chains -/

/-- The open scope is inside of the declaration of a name. -/
def OpenScope.Pends (s : OpenScope) (x : String) : Prop :=
  ∃ stmt ∈ s.pending, ∃ name, stmt.declared? = some name ∧ name.lexeme = x

/-- The frames from one outward are instances of the open scopes, and bind the names seen in them
so far. -/
def Chain (o : Labels) (fs : Frames) : List OpenScope → List (List String) → FrameId → Prop
  | [], [], f => f = Store.globals
  | s :: scopes, seen :: names, f =>
    f < fs.size ∧ o f = some s.scope ∧ (∀ x ∈ seen, s.Pends x ∨ (fs.valueIn f x).isSome) ∧
      ∃ g, fs.parent? f = some g ∧ Chain o fs scopes names g
  | _, _, _ => False

namespace Chain

variable {o o' : Labels} {μ μ' : Memory} {fs : Frames} {scopes : List OpenScope}
  {names : List (List String)} {f : FrameId}

theorem length_eq (h : Chain o fs scopes names f) : scopes.length = names.length := by
  induction scopes generalizing names f with
  | nil =>
    cases names with
    | nil => rfl
    | cons => exact h.elim
  | cons s scopes ih =>
    cases names with
    | nil => exact h.elim
    | cons seen names =>
      obtain ⟨-, -, -, g, -, hrest⟩ := h
      simp [ih hrest]

/-- **A chain stays a chain.** -/
theorem later (h : Chain o μ.frames scopes names f) (hlater : μ.Later μ')
    (hlabels : o.Agrees o' μ.frames.size) : Chain o' μ'.frames scopes names f := by
  induction scopes generalizing names f with
  | nil =>
    cases names with
    | nil => exact h
    | cons => exact h.elim
  | cons s scopes ih =>
    cases names with
    | nil => exact h.elim
    | cons seen names =>
      obtain ⟨hsize, hlabel, hbound, g, hparent, hrest⟩ := h
      refine ⟨Nat.lt_of_lt_of_le hsize hlater.frames, (hlabels f hsize).trans hlabel, ?_, g, ?_,
        ih hrest⟩
      · intro x hx
        exact (hbound x hx).imp_right (hlater.bound f x)
      · rw [hlater.parent f hsize, hparent]

theorem lt_size (h : Chain o fs scopes names f) (hfs : Store.globals < fs.size) : f < fs.size := by
  cases scopes with
  | nil =>
    cases names with
    | nil => exact (show f = Store.globals from h) ▸ hfs
    | cons => exact h.elim
  | cons s scopes =>
    cases names with
    | nil => exact h.elim
    | cons => exact h.1

/-- The frame at a distance is an instance of the scope at that distance. -/
theorem ancestor (h : Chain o fs scopes names f) {d : Nat} {s : OpenScope}
    (hs : scopes[d]? = some s) :
    ∃ g seen, fs.ancestor? f d = some g ∧ names[d]? = some seen ∧ o g = some s.scope ∧
      g < fs.size ∧ ∀ x ∈ seen, s.Pends x ∨ (fs.valueIn g x).isSome := by
  induction scopes generalizing names f d with
  | nil => cases hs
  | cons s' scopes ih =>
    cases names with
    | nil => exact h.elim
    | cons seen names =>
      obtain ⟨hsize, hlabel, hbound, g, hparent, hrest⟩ := h
      cases d with
      | zero =>
        cases hs
        exact ⟨f, seen, rfl, rfl, hlabel, hsize, hbound⟩
      | succ d =>
        obtain ⟨g', seen', hancestor, hnames, hfound⟩ := ih hrest hs
        refine ⟨g', seen', ?_, hnames, hfound⟩
        simp [Frames.ancestor?, hparent, hancestor]

/-- Outside of the open scopes is the outermost frame. -/
theorem ancestor_outermost (h : Chain o fs scopes names f) :
    fs.ancestor? f scopes.length = some Store.globals := by
  induction scopes generalizing names f with
  | nil =>
    cases names with
    | nil => exact congrArg some h
    | cons => exact h.elim
  | cons s scopes ih =>
    cases names with
    | nil => exact h.elim
    | cons seen names =>
      obtain ⟨-, -, -, g, hparent, hrest⟩ := h
      simp [Frames.ancestor?, hparent, ih hrest]

/-- A name that is declared and then bound in the innermost frame is one that is seen there. -/
theorem declare {r : Resolution} (h : Chain o fs scopes r.scopes f) (name : Token)
    (hbound : (fs.valueIn f name.lexeme).isSome) : Chain o fs scopes (r.declare name).scopes f := by
  cases hscopes : r.scopes with
  | nil =>
    simp only [Resolution.declare, hscopes]
    rwa [hscopes] at h
  | cons seen outer =>
    obtain ⟨seen', hdeclare, hmem⟩ := Resolution.scopes_declare name hscopes
    rw [hscopes] at h
    rw [hdeclare]
    cases scopes with
    | nil => exact h.elim
    | cons s scopes =>
      obtain ⟨hsize, hlabel, hseen, hrest⟩ := h
      refine ⟨hsize, hlabel, fun x hx ↦ ?_, hrest⟩
      rcases (hmem x).1 hx with rfl | hx
      · exact .inr hbound
      · exact hseen x hx

/-- While a declaration is not complete, its name need not be bound. -/
theorem declaring {r : Resolution} (h : Chain o fs scopes r.scopes f) {s : Stmt} {name : Token}
    (hs : s.declared? = some name) (hquiet : ∀ o ∈ scopes.head?, o.pending = none) :
    Chain o fs (declaring s scopes) (r.declare name).scopes f := by
  cases hscopes : r.scopes with
  | nil =>
    rw [hscopes] at h
    simp only [Resolution.declare, hscopes]
    cases scopes with
    | nil => exact h
    | cons => exact h.elim
  | cons seen outer =>
    obtain ⟨seen', hdeclare, hmem⟩ := Resolution.scopes_declare name hscopes
    rw [hscopes] at h
    rw [hdeclare]
    cases scopes with
    | nil => exact h.elim
    | cons innermost scopes =>
      obtain ⟨hsize, hlabel, hseen, hrest⟩ := h
      refine ⟨hsize, hlabel, fun x hx ↦ ?_, hrest⟩
      rcases (hmem x).1 hx with rfl | hx
      · exact .inl ⟨s, rfl, name, hs, rfl⟩
      · rcases hseen x hx with ⟨stmt, hstmt, -⟩ | hx
        · rw [hquiet innermost rfl] at hstmt
          cases hstmt
        · exact .inr hx

end Chain

end AliasScript
