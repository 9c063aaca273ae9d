import AliasScript.Proofs.Evaluation.AliasChain
import AliasScript.Proofs.Store.Trail

/-!
# The laws of scopes

A name is reached in two ways: by a search through all frames outward, and at a known distance
without a search. Frames are shared, so that many ways lead to one frame, and what is changed on one
of them is seen on all of these and on no other.

`Frames.Lawful` is what both ways obey together, and with them the machine, which goes one of them
for every use of a name. A search comes to the frame at the least distance that binds the name, for
reading and for assigning alike; an assignment succeeds exactly where the name can be read, and is
seen from everywhere that the same frame is reached from; and one that fails leaves the machine as
it was. The laws hold of all frames that were made one by one (`Frames.Made`): a frame is made
inside of one that is there already, so the way outward from each of them is a trail.
-/

namespace AliasScript

/-- The value that a name has: at the distance of this use, or by a search from the outermost frame
if the use has none. -/
def Machine.valueOf? (m : Machine) (name : Token) : Option Value :=
  match m.distances.find? name.index with
  | some distance => m.store.frames.getAt m.here distance name.lexeme
  | none => m.store.frames.get Store.globals name.lexeme

/-- What an assignment to a name makes of the frames: at the distance of this use, or by a search
from the outermost frame if the use has none. -/
def Machine.assigned? (m : Machine) (name : Token) (v : Value) : Option Frames :=
  match m.distances.find? name.index with
  | some distance => m.store.frames.assignAt m.here distance name.lexeme v
  | none => m.store.frames.assign Store.globals name.lexeme v

namespace Frames

/-- Frames that were made one by one, each on its own or inside of one that was there and with some
names in it, and in which names were bound and assigned to. -/
inductive Made : Frames → Prop
  | none : Made #[]
  | outermost {fs : Frames} {bindings : Bindings Value} : Made fs → Made (fs.push ⟨.none, bindings⟩)
  | inside {fs : Frames} {f : FrameId} {bindings : Bindings Value} : Made fs → f < fs.size →
      Made (fs.push ⟨some f, bindings⟩)
  | define {fs : Frames} {f : FrameId} {x : String} {v : Value} : Made fs → Made (fs.define f x v)
  | assign {fs fs' : Frames} {f : FrameId} {x : String} {v : Value} : Made fs →
      fs.assign f x v = some fs' → Made fs'
  | assignAt {fs fs' : Frames} {f : FrameId} {d : Nat} {x : String} {v : Value} : Made fs →
      fs.assignAt f d x v = some fs' → Made fs'

/-- The least distance at which a frame binds the name. -/
def Nearest (fs : Frames) (f : FrameId) (x : String) (d : Nat) : Prop :=
  (fs.getAt f d x).isSome ∧ ∀ e < d, fs.getAt f e x = none

/-- **The two ways to a name agree, and a change is seen on all ways to the same frame.** -/
structure Lawful (fs : Frames) : Prop where
  get_nearest : ∀ f x d, fs.Nearest f x d → fs.get f x = fs.getAt f d x
  get_none : ∀ f x, (∀ d, fs.getAt f d x = none) → fs.get f x = none
  assign_iff : ∀ f x v, (fs.assign f x v).isSome ↔ (fs.get f x).isSome
  assign_nearest : ∀ f x d, fs.Nearest f x d → ∀ v, fs.assign f x v = fs.assignAt f d x v
  assignAt_iff : ∀ f d x v, (fs.assignAt f d x v).isSome ↔ (fs.getAt f d x).isSome
  /-- An assignment is seen from where the same frame is reached, and from nowhere else. -/
  getAt_assignAt : ∀ f d x v fs', fs.assignAt f d x v = some fs' → ∀ g e y,
    fs'.getAt g e y =
      if y = x ∧ fs.ancestor? g e = fs.ancestor? f d then some v else fs.getAt g e y
  /-- Binding a name changes that name in that frame; no frame is added or moved. -/
  define : ∀ f < fs.size, ∀ x v, (fs.define f x v).size = fs.size ∧
    ∀ g, (fs.define f x v).parent? g = fs.parent? g ∧
      ∀ y, (fs.define f x v).valueIn g y = if g = f ∧ y = x then some v else fs.valueIn g y
  /-- The machine reads in these ways, and is left as it was. -/
  lookup : ∀ m : Machine, m.store.frames = fs → ∀ name,
    (∀ v, m.valueOf? name = some v → Run.lookup name m = .ok v m) ∧
    (m.valueOf? name = none →
      Run.lookup name m = .error (.fault ⟨name, .undefinedVariable name.lexeme⟩) m)
  /-- The machine assigns in these ways, and stays as it was if it cannot. -/
  overwrite : ∀ m : Machine, m.store.frames = fs → ∀ name v,
    (∀ fs', m.assigned? name v = some fs' →
      Run.overwrite name v m = .ok () { m with store := { m.store with frames := fs' } }) ∧
    (m.assigned? name v = none →
      Run.overwrite name v m = .error (.fault ⟨name, .undefinedVariable name.lexeme⟩) m)

/-! ### Frames that were made are on trails -/

theorem lt_size_of_parent? {fs : Frames} {f g : FrameId} (h : fs.parent? f = some g) :
    f < fs.size := by
  obtain ⟨frame, hframe, -⟩ := Option.bind_eq_some_iff.1 h
  exact (Array.getElem?_eq_some_iff.1 hframe).1

/-- A new frame descends if the frame around it is there. -/
theorem descends_push {fs : Frames} (h : Descends fs.parent?) {frame : Frame}
    (hframe : ∀ g ∈ frame.parent, g < fs.size) : Descends (parent? (fs.push frame)) := by
  intro f g hg
  have hf : f < fs.size + 1 := by simpa using lt_size_of_parent? hg
  rcases Nat.lt_succ_iff_lt_or_eq.1 hf with hf | rfl
  · exact h f g ((parent?_push_of_lt fs frame hf).symm.trans hg)
  · exact hframe g ((parent?_push_self fs frame).symm.trans hg)

/-- **Frames that were made one by one have smaller numbers than those inside of them.** -/
theorem Made.descends {fs : Frames} (h : fs.Made) : Descends fs.parent? := by
  -- Names may be bound and changed, which moves no frame.
  have hdefine :
      ∀ {fs : Frames} (f x v), Descends fs.parent? → Descends (fs.define f x v).parent? :=
    fun f x v hfs g g' hg ↦ hfs g g' ((parent?_define _ f g x v).symm.trans hg)
  induction h with
  | none => exact fun f g hg ↦ absurd (lt_size_of_parent? hg) (Nat.not_lt_zero f)
  | outermost _ ih => exact descends_push ih nofun
  | inside _ hf ih =>
    refine descends_push ih ?_
    rintro g ⟨⟩
    exact hf
  | define _ ih => exact hdefine _ _ _ ih
  | assign _ hassign ih | assignAt _ hassign ih =>
    obtain ⟨g, -, rfl⟩ := Option.map_eq_some_iff.1 hassign
    exact hdefine _ _ _ ih

variable {fs : Frames} {f g : FrameId} {x : String} {d : Nat}

/-- A search goes along a trail, also from a frame that is not there. -/
theorem exists_trail_find? (h : Descends fs.parent?) (f : FrameId) :
    ∃ path, Trail fs.parent? f path ∧
      ∀ x, fs.find? f x = path.find? fun g ↦ (fs.valueIn g x).isSome := by
  obtain ⟨path, hpath⟩ := exists_trail h f
  refine ⟨path, hpath, fun x ↦ ?_⟩
  by_cases hf : f < fs.size
  · exact hpath.findWithin x (Nat.le_trans (hpath.length_le h) hf)
  · have hnot : fs[f]? = none := Array.getElem?_eq_none (Nat.not_lt.1 hf)
    have hvalue : fs.valueIn f x = none := by rw [valueIn, hnot]; rfl
    have hparent : fs.parent? f = none := by rw [parent?, hnot]; rfl
    cases hpath with
    | step hnext => cases hparent.symm.trans hnext
    | last =>
      have hnone : ∀ n, fs.findWithin x n f = none := by
        intro n
        cases n <;> simp [findWithin, hvalue, hparent]
      rw [find?, hnone]
      simp [hvalue]

/-! ### Reading and assigning -/

theorem getAt_eq_some_iff {v : Value} :
    fs.getAt f d x = some v ↔ ∃ g, fs.ancestor? f d = some g ∧ fs.valueIn g x = some v :=
  Option.bind_eq_some_iff

theorem assignAt_eq_some_iff {v : Value} {fs' : Frames} :
    fs.assignAt f d x v = some fs' ↔
      ∃ g, fs.ancestor? f d = some g ∧ (fs.valueIn g x).isSome ∧ fs.define g x v = fs' := by
  simp [assignAt, binderAt?, Option.filter_eq_some_iff, and_assoc]

/-- **A search finds the frame at the least distance.** -/
theorem Nearest.find? (hd : fs.Nearest f x d) (h : Descends fs.parent?) :
    ∃ g, fs.find? f x = some g ∧ fs.ancestor? f d = some g ∧ (fs.valueIn g x).isSome := by
  obtain ⟨path, hpath, hfind⟩ := exists_trail_find? h f
  obtain ⟨hbound, hleast⟩ := hd
  obtain ⟨v, hv⟩ := Option.isSome_iff_exists.1 hbound
  obtain ⟨g, hg, hvalue⟩ := getAt_eq_some_iff.1 hv
  have hbinds : (fs.valueIn g x).isSome := Option.isSome_iff_exists.2 ⟨v, hvalue⟩
  refine ⟨g, ?_, hg, hbinds⟩
  rw [hpath.ancestor?] at hg
  obtain ⟨hlt, hg⟩ := List.getElem?_eq_some_iff.1 hg
  rw [hfind, List.find?_eq_some_iff_getElem]
  refine ⟨hbinds, d, hlt, hg, fun e he ↦ ?_⟩
  -- A frame that is nearer would have been read at its distance.
  have hnear := hleast e he
  rw [getAt, hpath.ancestor?, List.getElem?_eq_getElem (Nat.lt_trans he hlt)] at hnear
  simpa using hnear

theorem find?_eq_none (h : Descends fs.parent?) (hnone : ∀ d, fs.getAt f d x = none) :
    fs.find? f x = none := by
  obtain ⟨path, hpath, hfind⟩ := exists_trail_find? h f
  rw [hfind, List.find?_eq_none]
  intro g hg
  obtain ⟨d, hlt, rfl⟩ := List.getElem_of_mem hg
  have hd := hnone d
  rw [getAt, hpath.ancestor?, List.getElem?_eq_getElem hlt] at hd
  simpa using hd

/-- **An assignment is seen on all ways to the same frame**, and on no other. -/
theorem getAt_of_assignAt {v : Value} {fs' : Frames} (h : fs.assignAt f d x v = some fs')
    (g : FrameId) (e : Nat) (y : String) :
    fs'.getAt g e y =
      if y = x ∧ fs.ancestor? g e = fs.ancestor? f d then some v else fs.getAt g e y := by
  obtain ⟨binder, hbinder, hbound, rfl⟩ := assignAt_eq_some_iff.1 h
  obtain ⟨old, hold⟩ := Option.isSome_iff_exists.1 hbound
  have hsize := lt_size_of_valueIn hold
  rw [getAt, getAt, ancestor?_congr (fun g ↦ parent?_define fs binder g x v), hbinder]
  cases fs.ancestor? g e with
  | none => simp
  | some reached => simp [valueIn_define fs hsize, and_comm]

/-- Reading at a distance is reading in the frame there, if it binds the name. -/
theorem getAt_eq_bind_binderAt? (fs : Frames) (f : FrameId) (d : Nat) (x : String) :
    fs.getAt f d x = (fs.binderAt? f d x).bind (fs.valueIn · x) := by
  rw [getAt, binderAt?]
  cases fs.ancestor? f d with
  | none => rfl
  | some g => cases hvalue : fs.valueIn g x <;> simp [Option.filter, hvalue]

/-- The machine reads a name as the frames say. -/
theorem lookup_eq (m : Machine) (name : Token) :
    Run.lookup name m =
      match m.valueOf? name with
      | some v => .ok v m
      | none => .error (.fault ⟨name, .undefinedVariable name.lexeme⟩) m := by
  unfold Run.lookup Machine.valueOf?
  simp only [bind, EStateM.bind, Run.binder?, Run.read, getAt_eq_bind_binderAt?, get]
  cases m.distances.find? name.index with
  | none =>
    simp only
    cases (m.store.frames.find? Store.globals name.lexeme).bind
      (m.store.frames.valueIn · name.lexeme) <;> rfl
  | some distance =>
    simp only
    cases (m.store.frames.binderAt? m.here distance name.lexeme).bind
      (m.store.frames.valueIn · name.lexeme) <;> rfl

/-- The machine overwrites a name as the frames say. -/
theorem overwrite_eq (m : Machine) (name : Token) (v : Value) :
    Run.overwrite name v m =
      match m.assigned? name v with
      | some fs => .ok () { m with store := { m.store with frames := fs } }
      | none => .error (.fault ⟨name, .undefinedVariable name.lexeme⟩) m := by
  unfold Run.overwrite Machine.assigned?
  simp only [bind, EStateM.bind, Run.binder?, Run.read, assignAt, assign]
  cases m.distances.find? name.index with
  | none =>
    simp only
    cases m.store.frames.find? Store.globals name.lexeme <;> rfl
  | some distance =>
    simp only
    cases m.store.frames.binderAt? m.here distance name.lexeme <;> rfl

/-- **The laws of scopes hold of all frames that were made one by one.** -/
theorem lawful_of_made (h : fs.Made) : fs.Lawful where
  get_nearest f x d hd := by
    obtain ⟨g, hfind, hancestor, -⟩ := hd.find? h.descends
    rw [get, getAt, hfind, hancestor]
  get_none f x hnone := by rw [get, find?_eq_none h.descends hnone]; rfl
  assign_iff f x v := by
    rw [assign, get]
    cases hfind : fs.find? f x with
    | none => simp
    | some g => simpa using isSome_of_find? hfind
  assign_nearest f x d hd v := by
    obtain ⟨g, hfind, hancestor, hbound⟩ := hd.find? h.descends
    rw [assign, hfind]
    exact (assignAt_eq_some_iff.2 ⟨g, hancestor, hbound, rfl⟩).symm
  assignAt_iff f d x v := by
    rw [assignAt, getAt, binderAt?]
    cases hancestor : fs.ancestor? f d with
    | none => simp
    | some g => cases hbound : fs.valueIn g x <;> simp [Option.filter, hbound]
  getAt_assignAt f d x v fs' hassign := getAt_of_assignAt hassign
  define f hf x v :=
    ⟨size_define fs f x v, fun g ↦
      ⟨parent?_define fs f g x v, fun y ↦ valueIn_define fs hf g x y v⟩⟩
  lookup m _ name := by
    rw [lookup_eq]
    refine ⟨fun v hsome ↦ ?_, fun hnone ↦ ?_⟩
    · rw [hsome]
    · rw [hnone]
  overwrite m _ name v := by
    rw [overwrite_eq]
    refine ⟨fun fs' hsome ↦ ?_, fun hnone ↦ ?_⟩
    · rw [hsome]
    · rw [hnone]

/-- Two frames inside of one that binds a name. -/
theorem lawful_two_inside_one :
    ∃ fs : Frames, fs.Made ∧ fs.Nearest 1 "a" 1 ∧ fs.ancestor? 2 1 = fs.ancestor? 1 1 ∧
      fs.Lawful := by
  have hmade : Made (define (((#[] : Frames).push ⟨.none, []⟩).push ⟨some 0, []⟩ |>.push
      ⟨some 0, []⟩) 0 "a" .nil) :=
    .define (.inside (.inside (.outermost .none) (by decide)) (by decide))
  refine ⟨_, hmade, ⟨by decide, ?_⟩, by decide, lawful_of_made hmade⟩
  intro e he
  cases Nat.lt_one_iff.1 he
  decide

end Frames

end AliasScript
