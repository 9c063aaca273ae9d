import AliasScript.Proofs.Store.Lineage

/-!
# Trails

Frames and classes are numbered in the order of creation, and a frame knows the frame around it, as
a class knows the class above it. If these have smaller numbers (`Descends`), then going from one to
the next comes to an end, and the numbers on the way are a finite list: the *trail* from the first
(`Trail`, `exists_trail`).

A name is looked for along the trail of a frame, and a method along the trail of a class. The
searches of the store go a bounded number of steps, since a definition has to end on any array of
frames. On a trail the bound cuts nothing off: what they find is what a search along the whole trail
finds (`Trail.findWithin`, `Trail.findMethodWithin`). `Frames.Outward` and `Store.Upward` say so of
all the ways to a name and of methods.
-/

namespace AliasScript

/-! ### Numbers that lead to each other -/

/-- Every number leads to a smaller one, if it leads to one. -/
def Descends (next : Nat → Option Nat) : Prop :=
  ∀ i j, next i = some j → j < i

/-- The numbers from one on, each of which leads to the one behind it, up to one that leads to none.
-/
inductive Trail (next : Nat → Option Nat) : Nat → List Nat → Prop
  | last {i : Nat} : next i = none → Trail next i [i]
  | step {i j : Nat} {path : List Nat} : next i = some j → Trail next j path →
      Trail next i (i :: path)

/-- **From every number there is a trail.** -/
theorem exists_trail {next : Nat → Option Nat} (h : Descends next) (i : Nat) :
    ∃ path, Trail next i path := by
  induction i using Nat.strongRecOn with
  | ind i ih =>
    cases hnext : next i with
    | none => exact ⟨[i], .last hnext⟩
    | some j =>
      obtain ⟨path, hpath⟩ := ih j (h i j hnext)
      exact ⟨i :: path, .step hnext hpath⟩

namespace Trail

variable {next : Nat → Option Nat} {i : Nat} {path : List Nat}

theorem le_of_mem (h : Trail next i path) (hnext : Descends next) {k : Nat} (hk : k ∈ path) :
    k ≤ i := by
  induction h with
  | last => exact Nat.le_of_eq (List.mem_singleton.1 hk)
  | @step i j path hj _ ih =>
    rcases List.mem_cons.1 hk with rfl | hk
    · exact Nat.le_refl k
    · exact Nat.le_trans (ih hk) (Nat.le_of_lt (hnext i j hj))

/-- The numbers on a trail get smaller and smaller. -/
theorem pairwise (h : Trail next i path) (hnext : Descends next) : path.Pairwise (· > ·) := by
  induction h with
  | last => exact List.pairwise_singleton _ _
  | @step i j path hj hpath ih =>
    refine List.pairwise_cons.2 ⟨fun k hk ↦ ?_, ih⟩
    exact Nat.lt_of_le_of_lt (hpath.le_of_mem hnext hk) (hnext i j hj)

/-- A trail is no longer than there are numbers up to its first. -/
theorem length_le (h : Trail next i path) (hnext : Descends next) : path.length ≤ i + 1 := by
  induction h with
  | last => exact Nat.le_add_left 1 _
  | @step i j path hj _ ih => exact Nat.succ_le_succ (Nat.le_trans ih (hnext i j hj))

/-- **A trail ends where nothing else is led to.** -/
theorem getLast? (h : Trail next i path) : ∃ k, path.getLast? = some k ∧ next k = none := by
  induction h with
  | @last i hi => exact ⟨i, rfl, hi⟩
  | @step i j path _ hpath ih =>
    obtain ⟨k, hlast, hk⟩ := ih
    exact ⟨k, by rw [List.getLast?_cons, hlast]; rfl, hk⟩

end Trail

/-! ### Names along a trail of frames -/

namespace Trail

variable {fs : Frames} {f : FrameId} {path : List FrameId}

/-- **The frame at a distance is the one at that place of the trail.** -/
theorem ancestor? (h : Trail fs.parent? f path) (d : Nat) : fs.ancestor? f d = path[d]? := by
  induction h generalizing d with
  | last hparent =>
    cases d with
    | zero => rfl
    | succ d => simp [Frames.ancestor?, hparent]
  | step hparent _ ih =>
    cases d with
    | zero => rfl
    | succ d => simp [Frames.ancestor?, hparent, ih]

/-- **A search outward goes along the trail**, if its bound allows for the whole of it. -/
theorem findWithin (h : Trail fs.parent? f path) (x : String) {n : Nat} (hn : path.length ≤ n) :
    fs.findWithin x n f = path.find? fun g ↦ (fs.valueIn g x).isSome := by
  induction h generalizing n with
  | @last f hparent =>
    obtain ⟨n, rfl⟩ := Nat.exists_eq_add_one_of_ne_zero (Nat.ne_zero_of_lt hn)
    rw [Frames.findWithin, hparent]
    cases hbound : (fs.valueIn f x).isSome <;> simp [hbound]
  | @step f g path hparent _ ih =>
    obtain ⟨n, rfl⟩ := Nat.exists_eq_add_one_of_ne_zero (Nat.ne_zero_of_lt hn)
    rw [Frames.findWithin, hparent, Option.bind_some, ih (Nat.le_of_succ_le_succ hn)]
    cases hbound : (fs.valueIn f x).isSome <;> simp [hbound]

end Trail

/-- **The ways outward from a frame end.** They lead along a trail of older and older frames, up to
the outermost one. Searching for a name finds the first frame on the trail that binds it, and a
larger bound would find no other; going a distance comes to the frame at that place, if the trail is
long enough. -/
structure Frames.Outward (fs : Frames) (f : FrameId) (path : List FrameId) : Prop where
  trail : Trail fs.parent? f path
  older : path.Pairwise (· > ·)
  existing : ∀ g ∈ path, g < fs.size
  outermost : path.getLast? = some Store.globals
  unbounded : ∀ x n, fs.size ≤ n → fs.findWithin x n f = fs.find? f x
  get : ∀ x, fs.get f x = path.findSome? (fs.valueIn · x)
  assign : ∀ x v, fs.assign f x v =
    (path.find? fun g ↦ (fs.valueIn g x).isSome).map (fs.define · x v)
  getAt : ∀ d x, fs.getAt f d x = path[d]?.bind (fs.valueIn · x)
  assignAt : ∀ d x v, fs.assignAt f d x v =
    (path[d]?.filter fun g ↦ (fs.valueIn g x).isSome).map (fs.define · x v)

namespace Frames

variable (fs : Frames)

/-- The first value of a name on a trail is its value in the first frame that binds it. -/
theorem findSome?_valueIn (path : List FrameId) (x : String) :
    path.findSome? (fs.valueIn · x) =
      (path.find? fun g ↦ (fs.valueIn g x).isSome).bind (fs.valueIn · x) := by
  induction path with
  | nil => rfl
  | cons f path ih =>
    rw [List.findSome?_cons, List.find?_cons]
    cases hvalue : fs.valueIn f x with
    | none => simpa using ih
    | some v => simp [hvalue]

variable {fs} {f : FrameId}

/-- **From every frame the ways outward end**, if the frames around have smaller numbers and only
the outermost one has none around it. -/
theorem exists_outward (hparent : Descends fs.parent?)
    (hroot : ∀ f < fs.size, fs.parent? f = none → f = Store.globals) (hf : f < fs.size) :
    ∃ path, fs.Outward f path := by
  obtain ⟨path, hpath⟩ := exists_trail hparent f
  have hlength : path.length ≤ fs.size := Nat.le_trans (hpath.length_le hparent) hf
  have hexisting : ∀ g ∈ path, g < fs.size := fun g hg ↦
    Nat.lt_of_le_of_lt (hpath.le_of_mem hparent hg) hf
  have hfind : ∀ x, fs.find? f x = path.find? fun g ↦ (fs.valueIn g x).isSome := fun x ↦
    hpath.findWithin x hlength
  obtain ⟨g, hlast, hg⟩ := hpath.getLast?
  exact ⟨path, {
    trail := hpath
    older := hpath.pairwise hparent
    existing := hexisting
    outermost := hroot g (hexisting g (List.mem_of_getLast? hlast)) hg ▸ hlast
    unbounded := fun x n hn ↦
      (hpath.findWithin x (Nat.le_trans hlength hn)).trans (hfind x).symm
    get := fun x ↦ by rw [get, hfind, findSome?_valueIn]
    assign := fun x v ↦ by rw [assign, hfind]
    getAt := fun d x ↦ by rw [getAt, hpath.ancestor?]
    assignAt := fun d x v ↦ by rw [assignAt, binderAt?, hpath.ancestor?] }⟩

end Frames

/-! ### Methods along a trail of classes -/

/-- The method of a name that a class has itself. -/
def Store.methodIn? (s : Store) (id : ClassId) (x : String) : Option Closure :=
  s.classes[id]?.bind (·.methods.get? x)

/-- One step of the search for a method. -/
theorem Store.findMethodWithin_succ (s : Store) (x : String) (n : Nat) (id : ClassId) :
    s.findMethodWithin x (n + 1) id =
      (s.methodIn? id x).or ((s.superclass? id).bind (s.findMethodWithin x n)) := by
  rw [findMethodWithin, methodIn?, superclass?]
  cases s.classes[id]? <;> rfl

/-- **A search upward goes along the trail**, if its bound allows for the whole of it. -/
theorem Trail.findMethodWithin {s : Store} {id : ClassId} {path : List ClassId}
    (h : Trail s.superclass? id path) (x : String) {n : Nat} (hn : path.length ≤ n) :
    s.findMethodWithin x n id = path.findSome? (s.methodIn? · x) := by
  induction h generalizing n with
  | @last id hsuper =>
    obtain ⟨n, rfl⟩ := Nat.exists_eq_add_one_of_ne_zero (Nat.ne_zero_of_lt hn)
    rw [Store.findMethodWithin_succ, hsuper]
    cases hmethod : s.methodIn? id x <;> simp [hmethod]
  | @step id p path hsuper _ ih =>
    obtain ⟨n, rfl⟩ := Nat.exists_eq_add_one_of_ne_zero (Nat.ne_zero_of_lt hn)
    rw [Store.findMethodWithin_succ, hsuper, Option.bind_some, ih (Nat.le_of_succ_le_succ hn)]
    cases hmethod : s.methodIn? id x <;> simp [hmethod]

/-- **The way upward from a class ends.** It leads along a trail of older and older classes, and
searching for a method finds the one of the first class on the trail that has it; a larger bound
would find no other. -/
structure Store.Upward (s : Store) (id : ClassId) (path : List ClassId) : Prop where
  trail : Trail s.superclass? id path
  older : path.Pairwise (· > ·)
  existing : ∀ k ∈ path, k < s.classes.size
  unbounded : ∀ x n, s.classes.size ≤ n → s.findMethodWithin x n id = s.findMethod id x
  findMethod : ∀ x, s.findMethod id x = path.findSome? (s.methodIn? · x)

/-- **From every class the way upward ends**, if superclasses have smaller numbers. -/
theorem Store.exists_upward {s : Store} (hsuper : Descends s.superclass?) {id : ClassId}
    (hid : id < s.classes.size) : ∃ path, s.Upward id path := by
  obtain ⟨path, hpath⟩ := exists_trail hsuper id
  have hlength : path.length ≤ s.classes.size := Nat.le_trans (hpath.length_le hsuper) hid
  have hfind : ∀ x, s.findMethod id x = path.findSome? (s.methodIn? · x) := fun x ↦
    hpath.findMethodWithin x hlength
  refine ⟨path, hpath, hpath.pairwise hsuper, fun k hk ↦ ?_, fun x n hn ↦ ?_, hfind⟩
  · exact Nat.lt_of_le_of_lt (hpath.le_of_mem hsuper hk) hid
  · exact (hpath.findMethodWithin x (Nat.le_trans hlength hn)).trans (hfind x).symm

end AliasScript
