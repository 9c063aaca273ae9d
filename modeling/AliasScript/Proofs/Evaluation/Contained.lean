import AliasScript.Evaluation
import AliasScript.Proofs.Evaluation.Place
import Mathlib.Data.Set.Insert

/-!
# Where names are bound

An action may act in another frame or inside of a call, and it may be aborted there. However it
ends, and whatever the state was, the current frame and the number of active calls are in the end
what they were at the start: only `Run.inFrame` and `Run.inCall` change them, and both undo the
change.

Names are bound in few places. A declaration binds its name in the current frame, a module its names
in the outermost one, and all else that is bound is bound in a frame that is made with it, or was
bound before. So an action *spares* the frames that were there, but for the outermost one and those
that are its own (`Run.Spares`): a statement has the current frame for its own (`Run.Declares`),
and anything else has none (`Run.Contained`), since what is executed in a frame that is made for it
binds names there and not in any frame that was there before (`Run.Spares.inNewFrame`). No frame at
all loses a name.

All clauses of the evaluator are of the one or the other sort, if what is nested inside is
(`Evaluator.Contained`), and then so is the evaluator on any budget (`contained_evaluatorOf`).
-/

namespace AliasScript

/-! ### Names of frames -/

namespace Frames

/-- The names that a frame binds. -/
def namesIn (fs : Frames) (f : FrameId) : Set String :=
  {x | (fs.valueIn f x).isSome}

/-- A binding in a frame that is not there is lost. -/
theorem define_of_size_le (fs : Frames) {f : FrameId} (hf : fs.size ≤ f) (x : String) (v : Value) :
    fs.define f x v = fs := by
  refine Array.ext_getElem? fun i ↦ ?_
  rw [define, Array.getElem?_modify]
  split
  · next heq =>
    rw [← heq, Array.getElem?_eq_none hf]
    rfl
  · rfl

/-- **No frame loses a name**, and those that were there bind no more names than before, but for the
outermost one and some others. -/
structure Spares (own : Set FrameId) (fs fs' : Frames) : Prop where
  size : fs.size ≤ fs'.size
  keeps : ∀ f, fs.namesIn f ⊆ fs'.namesIn f
  same : ∀ f < fs.size, f ≠ Store.globals → f ∉ own → fs'.namesIn f = fs.namesIn f

namespace Spares

variable {own own' : Set FrameId} {fs fs' fs'' : Frames}

theorem refl (fs : Frames) : Spares own fs fs :=
  ⟨Nat.le_refl _, fun _ ↦ subset_rfl, fun _ _ _ _ ↦ rfl⟩

/-- What is spared twice in a row is spared, so the relation may be carried along a run. -/
theorem trans (h : Spares own fs fs') (h' : Spares own fs' fs'') : Spares own fs fs'' where
  size := Nat.le_trans h.size h'.size
  keeps f := (h.keeps f).trans (h'.keeps f)
  same f hf hglobals hown :=
    (h'.same f (Nat.lt_of_lt_of_le hf h.size) hglobals hown).trans (h.same f hf hglobals hown)

/-- The more frames an action owns, the less it has to spare. -/
theorem mono (h : Spares own fs fs') (hown : own ⊆ own') : Spares own' fs fs' where
  size := h.size
  keeps := h.keeps
  same f hf hglobals hf' := h.same f hf hglobals fun hmem ↦ hf' (hown hmem)

/-- A new frame is none of those that were there. -/
theorem push (fs : Frames) (frame : Frame) : Spares own fs (Array.push fs frame) where
  size := by simp
  keeps f x hx := by
    obtain ⟨v, hv⟩ := Option.isSome_iff_exists.1 hx
    show (valueIn (Array.push fs frame) f x).isSome
    rwa [valueIn_push_of_ne fs frame (lt_size_of_valueIn hv).ne]
  same f hf _ _ := by
    ext x
    show (valueIn (Array.push fs frame) f x).isSome ↔ (valueIn fs f x).isSome
    rw [valueIn_push_of_ne fs frame hf.ne]

/-- A frame that is made is none of those that were there. -/
theorem of_push {frame : Frame} (h : Spares {fs.size} (Array.push fs frame) fs') :
    Spares own fs fs' := by
  have hall : Spares {fs.size} fs fs' := (push fs frame).trans h
  exact ⟨hall.size, hall.keeps, fun f hf hglobals _ ↦ hall.same f hf hglobals hf.ne⟩

/-- The outermost frame is excepted anyway. -/
theorem of_globals (h : Spares {Store.globals} fs fs') : Spares own fs fs' :=
  ⟨h.size, h.keeps, fun f hf hglobals _ ↦ h.same f hf hglobals hglobals⟩

/-- A name may be bound in a frame of one's own, and bound again wherever it was bound before. -/
theorem define {f : FrameId} {x : String} (h : f ∈ own ∨ x ∈ fs.namesIn f) (v : Value) :
    Spares own fs (fs.define f x v) := by
  by_cases hf : f < fs.size
  · refine ⟨(size_define fs f x v).ge, fun g y hy ↦ ?_, fun g _ _ hown ↦ ?_⟩
    · show (valueIn (fs.define f x v) g y).isSome
      rw [valueIn_define fs hf]
      split
      · rfl
      · exact hy
    · ext y
      show (valueIn (fs.define f x v) g y).isSome ↔ (valueIn fs g y).isSome
      rw [valueIn_define fs hf]
      split
      · next heq =>
        -- In a frame that is spared only a name can be bound that was bound there before.
        obtain ⟨rfl, rfl⟩ := heq
        exact iff_of_true rfl (h.resolve_left hown)
      · rfl
  · rw [define_of_size_le fs (Nat.not_lt.1 hf)]
    exact .refl fs

end Spares

end Frames

/-- A class declaration makes a frame for `super` at most, and binds nothing in the others. -/
theorem Store.spares_addDeclared (s : Store) (own : Set FrameId) (outer : FrameId) (name : String)
    (superclass : Option ClassId) (methods classMethods : List Function) :
    s.frames.Spares own (s.addDeclared outer name superclass methods classMethods).2.frames := by
  cases superclass with
  | none => exact .refl _
  | some id => exact .push _ _

/-! ### Actions -/

/-- The machine has come back to the current frame and to the number of active calls, and spares all
frames but the outermost one and some others. -/
structure Machine.Spares (own : Set FrameId) (m m' : Machine) : Prop where
  here : m'.here = m.here
  depth : m'.depth = m.depth
  frames : m.store.frames.Spares own m'.store.frames

/-- What one machine spares on the way to the next, and that on the way to a third. -/
theorem Machine.Spares.trans {own : Set FrameId} {m m' m'' : Machine} (h : m.Spares own m')
    (h' : m'.Spares own m'') : m.Spares own m'' :=
  ⟨h'.here.trans h.here, h'.depth.trans h.depth, h.frames.trans h'.frames⟩

namespace Run

variable {α β : Type}

/-- The state that an action leaves behind, however it ends. -/
def stateAfter (act : Run α) (m : Machine) : Machine :=
  match act m with
  | .ok _ m' => m'
  | .error _ m' => m'

/-- An action in another frame leaves the frame that was current before. -/
theorem stateAfter_inFrame (f : FrameId) (act : Run α) (m : Machine) :
    stateAfter (inFrame f act) m =
      { stateAfter act { m with here := f } with here := m.here } := by
  unfold stateAfter inFrame
  cases act { m with here := f } <;> rfl

/-- An action in a call leaves the depth that there was before. -/
theorem stateAfter_inCall (act : Run α) (m : Machine) :
    stateAfter (inCall act) m =
      { stateAfter act { m with depth := m.depth + 1 } with
        depth := (stateAfter act { m with depth := m.depth + 1 }).depth - 1 } := by
  unfold stateAfter inCall
  cases act { m with depth := m.depth + 1 } <;> rfl

/-- **The action comes back and spares the frames that were there**, but for the outermost one and
those that are its own, which depend on the current frame. -/
def Spares (own : FrameId → Set FrameId) (act : Run α) : Prop :=
  ∀ m : Machine, m.Spares (own m.here) (stateAfter act m)

/-- The action has no frame of its own. -/
abbrev Contained (act : Run α) : Prop :=
  act.Spares fun _ ↦ ∅

/-- The action has the current frame for its own. -/
abbrev Declares (act : Run α) : Prop :=
  act.Spares fun f ↦ {f}

namespace Spares

variable {own : FrameId → Set FrameId} {act : Run α} {next : α → Run β}

/-! #### Actions put together -/

/-- **The set of frames passes along a sequence**: what both parts spare, the whole spares. -/
theorem bind (h : act.Spares own) (hnext : ∀ a, (next a).Spares own) :
    (act >>= next).Spares own := by
  intro m
  have hm := h m
  show m.Spares _ (stateAfter (EStateM.bind act next) m)
  unfold stateAfter EStateM.bind at *
  cases hact : act m with
  | ok a m' =>
    rw [hact] at hm
    have hm' := hnext a m'
    rw [hm.here] at hm'
    exact hm.trans hm'
  | error e m' =>
    rw [hact] at hm
    exact hm

theorem pure (a : α) : Spares own (Pure.pure a : Run α) := fun _ ↦ ⟨rfl, rfl, .refl _⟩

/-- A fault changes nothing. -/
theorem fault (token : Token) (cause : FaultCause) : Spares own (Run.fault token cause : Run α) :=
  fun _ ↦ ⟨rfl, rfl, .refl _⟩

/-- A breach changes nothing, wherever the run has come to. -/
theorem breach (b : Breach) : Spares own (Run.breach b : Run α) := fun _ ↦ ⟨rfl, rfl, .refl _⟩

theorem exhausted : Spares own (Run.exhausted : Run α) := fun _ ↦ ⟨rfl, rfl, .refl _⟩

/-- Reading changes nothing. -/
theorem read (f : Machine → α) : (Run.read f).Spares own := fun _ ↦ ⟨rfl, rfl, .refl _⟩

/-- A value that is missing ends the run, and one that is there is read. -/
theorem require (b : Breach) (x : Option α) : (Run.require b x).Spares own := by
  cases x with
  | none => exact .breach b
  | some a => exact .pure a

/-- What is read off the state does not matter. -/
theorem readThen {f : Machine → α} (hnext : ∀ a, (next a).Spares own) :
    (Run.read f >>= next).Spares own :=
  .bind (.read f) hnext

/-- What is found in the state is there when it is used next. -/
theorem readSome {find : Machine → Option α} {next : Option α → Run β}
    (hnone : (next none).Spares own)
    (hsome : ∀ (m : Machine) a, find m = some a →
      m.Spares (own m.here) (stateAfter (next (some a)) m)) :
    (Run.read find >>= next).Spares own := by
  intro m
  show m.Spares _ (stateAfter (next (find m)) m)
  cases hfind : find m with
  | none => exact hnone m
  | some a => exact hsome m a hfind

/-- An action without a frame of its own can be a part of one that has some. -/
theorem of_contained (h : act.Contained) : act.Spares own :=
  fun m ↦ { h m with frames := (h m).frames.mono (Set.empty_subset _) }

/-! #### Changes of the state -/

/-- The record of events is not part of the frames. -/
theorem note (e : Event) : (Run.note e).Spares own := fun _ ↦ ⟨rfl, rfl, .refl _⟩

theorem onWorld (f : World → α × World) : (Run.onWorld f).Spares own := fun _ ↦ ⟨rfl, rfl, .refl _⟩

/-- The world is not part of the frames. -/
theorem changeWorld (f : World → World) : (Run.changeWorld f).Spares own :=
  fun _ ↦ ⟨rfl, rfl, .refl _⟩

/-- An action on arrays, instances or classes leaves every frame alone. -/
theorem onStore {f : Store → α × Store} (h : ∀ s, (f s).2.frames = s.frames) :
    (Run.onStore f).Spares own := by
  refine fun m ↦ ⟨rfl, rfl, ?_⟩
  show m.store.frames.Spares _ (f m.store).2.frames
  rw [h m.store]
  exact .refl _

/-- Similarly, if the action gives no value. -/
theorem changeStore {f : Store → Store} (h : ∀ s, (f s).frames = s.frames) :
    (Run.changeStore f).Spares own := by
  refine fun m ↦ ⟨rfl, rfl, ?_⟩
  show m.store.frames.Spares _ (f m.store).frames
  rw [h m.store]
  exact .refl _

/-- A new frame comes behind all others, whatever it binds. -/
theorem newFrame (parent : FrameId) (bindings : Bindings Value) :
    (Run.newFrame parent bindings).Spares own :=
  fun _ ↦ ⟨rfl, rfl, .push _ _⟩

/-- A declaration owns the frame in which it binds its name. -/
theorem define (f : FrameId) (x : String) (v : Value) : (Run.define f x v).Spares fun _ ↦ {f} :=
  fun _ ↦ ⟨rfl, rfl, .define (.inl (Set.mem_singleton f)) v⟩

/-- The watch for faults only notes them. -/
theorem notingFault (h : act.Spares own) : (Run.notingFault act).Spares own := by
  intro m
  have hm := h m
  unfold stateAfter Run.notingFault at *
  cases hact : act m with
  | ok a m' =>
    rw [hact] at hm
    exact hm
  | error e m' =>
    rw [hact] at hm
    cases e <;> exact ⟨hm.here, hm.depth, hm.frames⟩

/-! #### Actions in another frame and in a call -/

/-- **What is done in another frame ends in the current one.** -/
theorem inFrame (h : act.Contained) (f : FrameId) : (Run.inFrame f act).Contained := by
  intro m
  rw [stateAfter_inFrame]
  exact ⟨rfl, (h _).depth, (h { m with here := f }).frames⟩

/-- In the outermost frame even declarations spare what has to be spared. -/
theorem inGlobals (h : act.Declares) : (Run.inFrame Store.globals act).Contained := by
  intro m
  rw [stateAfter_inFrame]
  exact ⟨rfl, (h _).depth, (h { m with here := Store.globals }).frames.of_globals⟩

/-- **What is declared in a frame that is made for it is declared nowhere else.** -/
theorem inNewFrame (h : act.Declares) (parent : FrameId) (bindings : Bindings Value) :
    (Run.newFrame parent bindings >>= fun f ↦ Run.inFrame f act).Contained := by
  intro m
  let made := (m.store.addFrame parent bindings).2
  show m.Spares _ (stateAfter (Run.inFrame m.store.frames.size act) { m with store := made })
  rw [stateAfter_inFrame]
  exact ⟨rfl, (h _).depth,
    (h { m with store := made, here := m.store.frames.size }).frames.of_push⟩

/-- **A call is active no longer once it has ended.** -/
theorem inCall (h : act.Contained) : (Run.inCall act).Contained := by
  intro m
  have hm := h { m with depth := m.depth + 1 }
  rw [stateAfter_inCall]
  refine ⟨hm.here, ?_, hm.frames⟩
  show (stateAfter act { m with depth := m.depth + 1 }).depth - 1 = m.depth
  rw [hm.depth, Nat.add_sub_cancel]

/-- What is done to the current frame. -/
theorem readHere {next : FrameId → Run β} (h : ∀ f, (next f).Spares fun _ ↦ {f}) :
    (Run.read (·.here) >>= next).Declares :=
  fun m ↦ h m.here m

end Spares

end Run

/-! ### Clauses that do not use the evaluator -/

namespace Run.Spares

/-- The elements of an array are read. -/
theorem elements (id : Nat) : (Run.elements id).Contained :=
  .readThen fun _ ↦ .require _ _

/-- A variable is looked up and nothing is bound by it. -/
theorem lookup (name : Token) : (Run.lookup name).Contained := by
  refine .bind (.read _) fun binder ↦ .readThen fun found ↦ ?_
  cases found with
  | none => exact .fault _ _
  | some v => exact .pure v

/-- A name that is overwritten was bound before. -/
theorem overwrite (name : Token) (v : Value) : (Run.overwrite name v).Contained := by
  refine .readSome (.fault _ _) fun m f hf ↦ ⟨rfl, rfl, .define (.inr ?_) v⟩
  split at hf
  · exact Frames.isSome_of_binderAt? hf
  · exact Frames.isSome_of_find? hf

end Run.Spares

namespace Builtin

/-- Output goes to the world. -/
theorem contained_writeOut (paren : Token) (text : String) : (writeOut paren text).Contained := by
  refine .readThen fun accepts ↦ ?_
  split
  · exact .bind (.changeWorld _) fun _ ↦ .pure _
  · exact .fault _ _

/-- The length of a value is read. -/
theorem contained_lengthOf (v : Value) : (lengthOf v).Contained := by
  unfold lengthOf
  split
  · exact .pure _
  · exact .bind (.elements _) fun _ ↦ .pure _
  · exact .pure _

/-- A shift computes with numbers alone. -/
theorem contained_shifted (paren : Token) (shift : Int → Int → Int) (v w : Value) :
    (shifted paren shift v w).Contained := by
  unfold shifted
  split
  · exact .pure _
  · exact .fault _ _

/-- Built-in functions change the world at most. -/
theorem contained_call (paren : Token) (b : Builtin) (arguments : List Value) :
    (b.call paren arguments).Contained := by
  unfold call
  split
  · exact .readThen fun _ ↦ contained_writeOut paren _
  · exact .readThen fun _ ↦ contained_writeOut paren _
  · refine .bind (.onWorld _) fun line ↦ ?_
    split <;> exact .pure _
  · exact .onWorld _
  · exact .readThen fun _ ↦ .pure _
  · refine .readThen fun text ↦ ?_
    split <;> exact .pure _
  · exact .pure _
  · exact .fault _ _
  · exact contained_lengthOf _
  · refine .readThen fun path ↦ .bind (.onWorld _) fun text ↦ ?_
    split <;> exact .pure _
  · exact .readThen fun _ ↦ .readThen fun _ ↦ .bind (.onWorld _) fun _ ↦ .pure _
  · exact .readThen fun _ ↦ .readThen fun _ ↦ .bind (.onWorld _) fun _ ↦ .pure _
  · exact contained_shifted paren _ _ _
  · exact contained_shifted paren _ _ _
  · exact .breach _

end Builtin

/-! ### Clauses that use the evaluator -/

/-- What is nested inside is contained, and a statement declares in the current frame. -/
structure Evaluator.Contained (r : Evaluator) : Prop where
  raw : ∀ e, (r.raw e).Contained
  execute : ∀ s, (r.execute s).Declares
  apply : ∀ paren callee arguments, (r.apply paren callee arguments).Contained

namespace Evaluator

/-! #### Operators -/

/-- If an operator is contained on numbers, it is contained on all values. -/
theorem contained_onNumbers (operator : Token) (left right : Value) {f : Float → Float → Run Value}
    (hf : ∀ x y, (f x y).Contained) : (onNumbers operator left right f).Contained := by
  unfold onNumbers
  split
  · exact hf _ _
  · exact .fault _ _

/-- Addition makes a text or an array at most, and binds nothing. -/
theorem contained_sum (operator : Token) (left right : Value) :
    (sum operator left right).Contained := by
  unfold sum
  split
  · exact .pure _
  · exact .pure _
  · exact .bind (.changeStore fun _ ↦ rfl) fun _ ↦ .pure _
  · exact .fault _ _

/-- Subtraction makes a shorter array at most. -/
theorem contained_difference (operator : Token) (left right : Value) :
    (difference operator left right).Contained := by
  unfold difference
  split
  · exact .pure _
  · refine .bind (.elements _) fun elements ↦ ?_
    split
    · exact .onStore fun _ ↦ rfl
    · exact .fault _ _
  · exact .fault _ _

/-- Every binary operator is contained. -/
theorem contained_binary (operator : Token) (left right : Value) :
    (binary operator left right).Contained := by
  unfold binary
  split
  · exact .pure _
  · exact contained_sum operator left right
  · exact contained_difference operator left right
  · exact contained_onNumbers _ _ _ fun _ _ ↦ .pure _
  · refine contained_onNumbers _ _ _ fun x y ↦ ?_
    split
    · exact .fault _ _
    · exact .pure _
  · exact contained_onNumbers _ _ _ fun _ _ ↦ .pure _
  · exact contained_onNumbers _ _ _ fun _ _ ↦ .pure _
  · exact contained_onNumbers _ _ _ fun _ _ ↦ .pure _
  · exact contained_onNumbers _ _ _ fun _ _ ↦ .pure _
  · exact contained_onNumbers _ _ _ fun _ _ ↦ .pure _
  · exact .readThen fun _ ↦ .pure _
  · exact .readThen fun _ ↦ .pure _
  · exact .breach _

/-- Every unary operator is contained. -/
theorem contained_unary (operator : Token) (v : Value) : (unary operator v).Contained := by
  unfold unary
  split
  · exact .pure _
  · exact .fault _ _
  · exact .pure _
  · exact .breach _

/-! #### Places -/

/-- A bound method is a closure in a new frame, where the receiver is bound. -/
theorem contained_bindMethod (method : Closure) (receiver : Value) (isInitializer : Bool) :
    (bindMethod method receiver isInitializer).Contained :=
  .bind (.newFrame _ _) fun _ ↦ .pure _

/-- A property belongs to an instance or to a class. -/
theorem contained_setProperty (v : Value) (name : Token) (value : Value) :
    (setProperty v name value).Contained := by
  unfold setProperty
  split
  · exact .changeStore fun _ ↦ rfl
  · exact .changeStore fun _ ↦ rfl
  · exact .fault _ _

/-- A position is computed from an array and a number. -/
theorem contained_position (bracket : Token) (v index : Value) :
    (position bracket v index).Contained := by
  unfold position
  split
  · refine .bind (.elements _) fun elements ↦ ?_
    split
    · dsimp only
      split
      · exact .pure _
      · exact .fault _ _
    · exact .fault _ _
  · exact .fault _ _

/-- An element is read at its position. -/
theorem contained_element (bracket : Token) (v index : Value) :
    (element bracket v index).Contained :=
  .bind (contained_position bracket v index) fun _ ↦ .bind (.elements _) fun _ ↦ .require _ _

/-- An element is written at its position, in an array. -/
theorem contained_setElement (bracket : Token) (v index value : Value) :
    (setElement bracket v index value).Contained :=
  .bind (contained_position bracket v index) fun _ ↦ .changeStore fun _ ↦ rfl

/-! #### Sources -/

/-- A module is loaded from its text. -/
theorem contained_load (source : String) : (load source).Contained := by
  refine .readThen fun index ↦ .bind (fun _ ↦ ⟨rfl, rfl, .refl _⟩) fun _ ↦
    .bind (.note _) fun _ ↦ ?_
  split
  · exact .pure _
  · refine .bind (.note _) fun _ ↦ ?_
    split
    · exact .pure _
    · exact .bind (.note _) fun _ ↦ .pure _

/-- The shifts are defined as natives, in a frame of their own. -/
theorem contained_bitwise : bitwise.Contained :=
  .bind (.onStore fun _ ↦ rfl) fun _ ↦ .bind (.onStore fun _ ↦ rfl) fun _ ↦
    .bind (.onStore fun _ ↦ rfl) fun _ ↦ .bind (.onStore fun _ ↦ rfl) fun _ ↦ .pure _

namespace Contained

variable {r : Evaluator} (h : r.Contained)

include h

/-! #### Aliases and calls -/

/-- Along references the chain is read, however long it is. -/
theorem followWithin (hops : Nat) (v : Value) : (r.followWithin hops v).Contained := by
  induction hops generalizing v with
  | zero =>
    unfold Evaluator.followWithin
    split
    · exact .readThen fun _ ↦ .bind (.require _ _) fun _ ↦ .fault _ _
    · exact .pure _
  | succ hops ih =>
    unfold Evaluator.followWithin
    split
    · exact .readThen fun _ ↦ .bind (.require _ _) fun ref ↦ .bind (.inFrame (h.raw _) _) ih
    · exact .pure _

/-- The end of the chain is read as well. -/
theorem follow (v : Value) : (r.follow v).Contained :=
  h.followWithin maxHops v

/-- An expression binds no name where it stands. -/
theorem evaluate (e : Expr) : (r.evaluate e).Contained :=
  .bind (h.raw e) h.follow

/-- The same holds of expressions one after the other. -/
theorem evaluateAll (es : List Expr) : (r.evaluateAll es).Contained := by
  induction es with
  | nil => exact .pure _
  | cons e rest ih => exact .bind (h.evaluate e) fun _ ↦ .bind ih fun _ ↦ .pure _

/-- Statements in a row declare names in the current frame alone. -/
theorem executeAll (ss : List Stmt) : (r.executeAll ss).Declares := by
  induction ss with
  | nil => exact .pure _
  | cons s rest ih =>
    refine .bind (h.execute s) fun flow ↦ ?_
    cases flow with
    | normal => exact ih
    | returned v => exact .pure _

/-- **A call binds its parameters in a frame of its own**, and so does all that its body declares.
-/
theorem callFunction (closure : Closure) (arguments : List Value) :
    (r.callFunction closure arguments).Contained := by
  rw [Evaluator.callFunction, ← bind_assoc]
  refine .bind (.inNewFrame (h.executeAll _) _ _) fun flow ↦ ?_
  split
  · exact .readThen fun _ ↦ .require _ _
  · split <;> exact .pure _

/-- A constructor is a call of the initializer, on an instance that is new. -/
theorem construct (id : ClassId) (arguments : List Value) :
    (r.construct id arguments).Contained := by
  refine .bind (.onStore fun _ ↦ rfl) fun object ↦ .readThen fun method ↦ ?_
  split
  · exact .bind (contained_bindMethod _ _ _) fun _ ↦ .bind (h.callFunction _ _) fun _ ↦ .pure _
  · exact .pure _

/-- Whatever is called, the frames of the caller are spared. -/
theorem applyStep (paren : Token) (callee : Callee) (arguments : List Value) :
    (r.applyStep paren callee arguments).Contained := by
  cases callee with
  | function closure => exact h.callFunction closure arguments
  | construct id c => exact h.construct id arguments
  | builtin b => exact b.contained_call paren arguments

/-- The depth of the call makes no difference. -/
theorem invoke (paren : Token) (callee : Callee) (arguments : List Value) :
    (r.invoke paren callee arguments).Contained := by
  refine .readThen fun depth ↦ ?_
  split
  · exact .fault _ _
  · exact .bind (.note _) fun _ ↦ .inCall (h.apply paren callee arguments)

/-- A value that is not callable only faults. -/
theorem call (paren : Token) (v : Value) (arguments : List Value) :
    (r.call paren v arguments).Contained := by
  refine .readThen fun callee ↦ ?_
  split
  · exact .fault _ _
  · refine .readThen fun arity ↦ ?_
    split
    · exact h.invoke _ _ _
    · exact .fault _ _

/-! #### Properties and variables -/

/-- A getter is called at once, any other method is bound. -/
theorem methodValue (name : Token) (method : Closure) : (r.methodValue name method).Contained := by
  unfold Evaluator.methodValue
  split
  · exact h.invoke _ _ _
  · exact .onStore fun _ ↦ rfl

/-- A method that was found is bound and then given, and one that was not found faults. -/
theorem bindFound (found : Option Closure) (name : Token) (receiver : Value)
    (isInitializer : Bool) : (r.bindFound found name receiver isInitializer).Contained := by
  unfold Evaluator.bindFound
  split
  · exact .bind (contained_bindMethod _ _ _) fun _ ↦ h.methodValue _ _
  · exact .fault _ _

/-- A getter that stands in a field is called as well. -/
theorem fieldValue (name : Token) (field : Value) : (r.fieldValue name field).Contained := by
  refine .readThen fun getter ↦ ?_
  split
  · exact h.invoke _ _ _
  · exact .pure _

/-- A field or else a method. -/
theorem fieldOrMethod (v : Value) (name : Token) (field : Option Value) (method : Option Closure)
    (isInitializer : Bool) : (r.fieldOrMethod v name field method isInitializer).Contained := by
  unfold Evaluator.fieldOrMethod
  split
  · exact h.fieldValue _ _
  · exact h.bindFound _ _ _ _

/-- The rule for properties, of instances and of classes. -/
theorem property (v : Value) (name : Token) : (r.property v name).Contained := by
  unfold Evaluator.property
  split
  · exact .readThen fun _ ↦ .bind (.require _ _) fun _ ↦ .readThen fun _ ↦ h.fieldOrMethod _ _ _ _ _
  · exact .readThen fun _ ↦ .bind (.require _ _) fun _ ↦ .readThen fun _ ↦ h.fieldOrMethod _ _ _ _ _
  · exact .fault _ _

/-- The rule for `super` finds its method from the class that is named there. -/
theorem superMethod (keyword method : Token) : (r.superMethod keyword method).Contained := by
  refine .readThen fun distance ↦ ?_
  split
  · refine .readThen fun superclass ↦ ?_
    split
    · exact .readThen fun _ ↦ .bind (.require _ _) fun _ ↦ .readThen fun _ ↦ h.bindFound _ _ _ _
    · exact .breach _
  · exact .breach _

/-- A store writes to a variable that is bound already, at the end of a chain of any length. -/
theorem storeWithin (hops : Nat) (name : Token) (value : Value) :
    (r.storeWithin hops name value).Contained := by
  induction hops generalizing name with
  | zero =>
    unfold Evaluator.storeWithin
    refine .bind (.lookup name) fun v ↦ ?_
    split
    · exact .readThen fun _ ↦ .bind (.require _ _) fun _ ↦ .fault _ _
    · exact .overwrite name value
  | succ hops ih =>
    unfold Evaluator.storeWithin
    refine .bind (.lookup name) fun v ↦ ?_
    split
    · refine .readThen fun _ ↦ .bind (.require _ _) fun ref ↦ .inFrame ?_ ref.frame
      split
      · exact ih _
      · exact .bind (h.evaluate _) fun _ ↦ contained_setProperty _ _ _
      · exact .bind (h.evaluate _) fun _ ↦ .bind (h.evaluate _) fun _ ↦ contained_setElement _ _ _ _
      · exact .breach _
    · exact .overwrite name value

/-- So a store never declares a name. -/
theorem store (name : Token) (value : Value) : (r.store name value).Contained :=
  h.storeWithin maxHops name value

/-! #### Expressions -/

/-- **An expression is contained.** -/
theorem rawStep (e : Expr) : (r.rawStep e).Contained := by
  cases e with
  | literal value => exact .pure _
  | «variable» name => exact .lookup name
  | this keyword =>
    refine .bind (.read _) fun binder ↦ ?_
    cases binder with
    | none => exact .breach _
    | some f => exact .lookup keyword
  | super keyword method => exact h.superMethod keyword method
  | array bracket elements => exact .bind (h.evaluateAll elements) fun _ ↦ .onStore fun _ ↦ rfl
  | grouping inner => exact h.evaluate inner
  | function declaration => exact .readThen fun _ ↦ .onStore fun _ ↦ rfl
  | unary operator operand => exact .bind (h.evaluate operand) fun v ↦ contained_unary operator v
  | reference operator target =>
    simp only [Evaluator.rawStep]
    split
    · exact .readThen fun _ ↦ .onStore fun _ ↦ rfl
    · exact .breach _
  | binary left operator right =>
    exact .bind (h.evaluate left) fun v ↦ .bind (h.evaluate right) fun w ↦
      contained_binary operator v w
  | logical left operator right =>
    refine .bind (h.evaluate left) fun v ↦ ?_
    split
    · exact .pure _
    · exact h.evaluate right
  | ternary condition mark whenTrue whenFalse =>
    refine .bind (h.evaluate condition) fun v ↦ ?_
    split
    · exact h.evaluate whenTrue
    · exact h.evaluate whenFalse
  | assign name value =>
    exact .bind (h.evaluate value) fun v ↦ .bind (h.store name v) fun _ ↦ .pure _
  | call callee paren arguments =>
    exact .bind (h.evaluate callee) fun v ↦ .bind (h.evaluateAll arguments) fun args ↦
      h.call paren v args
  | get object name => exact .bind (h.evaluate object) fun v ↦ h.property v name
  | set object name value =>
    refine .bind (h.evaluate object) fun v ↦ ?_
    split
    · exact .bind (h.evaluate value) fun w ↦ .bind (contained_setProperty _ name w) fun _ ↦ .pure _
    · exact .bind (h.evaluate value) fun w ↦ .bind (contained_setProperty _ name w) fun _ ↦ .pure _
    · exact .fault _ _
  | subscript object bracket index =>
    exact .bind (h.evaluate object) fun v ↦ .bind (h.evaluate index) fun i ↦
      contained_element bracket v i
  | setElement object bracket index value =>
    exact .bind (h.evaluate object) fun v ↦ .bind (h.evaluate index) fun i ↦
      .bind (h.evaluate value) fun w ↦ .bind (contained_setElement bracket v i w) fun _ ↦ .pure _

/-! #### Modules -/

/-- A program declares its names in the frame in which it is run. -/
theorem executeTop (program : Program) : (r.executeTop program).Declares := by
  induction program with
  | nil => exact .pure _
  | cons s rest ih =>
    refine .bind (h.execute s) fun flow ↦ ?_
    cases flow with
    | normal => exact ih
    | returned v => exact .breach _

/-- **A source declares its names in the current frame**, also one that is aborted. -/
theorem runSource (source : String) : (r.runSource source).Declares := by
  refine .bind (.of_contained (contained_load source)) fun resolved ↦ ?_
  split
  · exact .pure _
  · exact .bind (fun _ ↦ ⟨rfl, rfl, .refl _⟩) fun _ ↦
      .bind (.notingFault (h.executeTop _)) fun _ ↦ .pure _

/-- A module is run in the outermost frame, wherever its import stands. -/
theorem runModule (keyword : Token) (name source : String) :
    (r.runModule keyword name source).Contained := by
  refine .bind (.note _) fun _ ↦ .bind (.inGlobals (h.runSource source)) fun result ↦ ?_
  split
  · exact .pure _
  · exact .fault _ _

/-- A part of the library is a module or a native. -/
theorem loadPart (keyword : Token) (part : Library.Part) : (r.loadPart keyword part).Contained := by
  cases part with
  | source name text => exact h.runModule keyword name text
  | bitwise =>
    refine .bind contained_bitwise fun v m ↦ ⟨rfl, rfl, Frames.Spares.of_globals ?_⟩
    exact .define (.inl (Set.mem_singleton _)) v

/-- The parts of a module are loaded one after the other. -/
theorem loadParts (keyword : Token) (parts : List Library.Part) :
    (r.loadParts keyword parts).Contained := by
  induction parts with
  | nil => exact .pure _
  | cons part rest ih => exact .bind (h.loadPart keyword part) fun _ ↦ ih

/-- An import reads its source from the library or from the world. -/
theorem importPath (keyword : Token) (path : String) : (r.importPath keyword path).Contained := by
  refine .bind (.note _) fun _ ↦ ?_
  split
  · dsimp only
    split
    · exact h.loadParts keyword _
    · exact .fault _ _
  · refine .bind (.onWorld _) fun text ↦ ?_
    split
    · exact h.runModule _ _ _
    · exact .fault _ _

/-! #### Statements -/

/-- **A block keeps its declarations to itself.** -/
theorem block (body : List Stmt) : (r.executeStep (.block body)).Contained :=
  .readThen fun here ↦ .inNewFrame (h.executeAll body) here []

/-- Thus an import binds names in the outermost frame alone. -/
theorem importModule (keyword : Token) (name : Expr) :
    (r.executeStep (.importModule keyword name)).Contained := by
  refine .bind (h.evaluate name) fun v ↦ ?_
  split
  · exact .bind (h.importPath keyword _) fun _ ↦ .pure _
  · exact .fault _ _

omit h in
/-- A loop declares what its body declares, on any number of rounds. -/
theorem loopWithin {condition : Run Value} {body : Run Flow} (hcondition : condition.Contained)
    (hbody : body.Declares) (n : Nat) : (loopWithin condition body n).Declares := by
  induction n with
  | zero => exact .exhausted
  | succ n ih =>
    refine .bind (.of_contained hcondition) fun v ↦ ?_
    split
    · refine .bind hbody fun flow ↦ ?_
      cases flow with
      | normal => exact ih
      | returned v => exact .pure _
    · exact .pure _

/-- The superclass is looked up as a variable is. -/
theorem superclassOf (superclass : Option Token) : (r.superclassOf superclass).Contained := by
  cases superclass with
  | none => exact .pure _
  | some name =>
    refine .bind (h.evaluate _) fun v ↦ ?_
    split
    · exact .pure _
    · exact .fault _ _

/-- The name of a class is bound before the class is made, and then again to the class. -/
theorem declareClass (name : Token) (superclass : Option Token)
    (methods classMethods : List Function) :
    (r.declareClass name superclass methods classMethods).Declares := by
  refine .bind (.of_contained (h.superclassOf superclass)) fun superclass ↦ .readHere fun here ↦
    .bind (.define here _ _) fun _ ↦
    .bind (fun m ↦ ⟨rfl, rfl, m.store.spares_addDeclared _ _ _ _ _ _⟩) fun id ↦
    .readSome (.breach _) fun m f hf ↦ ⟨rfl, rfl, .define (.inr ?_) _⟩
  exact Frames.isSome_of_find? hf

/-- **A statement declares in the current frame.** -/
theorem executeStep (s : Stmt) : (r.executeStep s).Declares := by
  cases s with
  | expression value => exact .bind (.of_contained (h.evaluate value)) fun _ ↦ .pure _
  | block body => exact .of_contained (h.block body)
  | var name initial =>
    have hdefine (v : Value) :
        (Run.read (·.here) >>= fun here ↦ Run.define here name.lexeme v >>= fun _ ↦
          (Pure.pure .normal : Run Flow)).Declares :=
      .readHere fun here ↦ .bind (.define here _ v) fun _ ↦ .pure _
    cases initial with
    | none => exact .bind (.pure _) hdefine
    | some e => exact .bind (.of_contained (h.raw e)) hdefine
  | ifElse keyword condition whenTrue whenFalse =>
    refine .bind (.of_contained (h.evaluate condition)) fun v ↦ ?_
    split
    · exact h.execute whenTrue
    · cases whenFalse with
      | none => exact .pure _
      | some s => exact h.execute s
  | loop keyword condition body =>
    exact loopWithin (h.evaluate condition) (h.execute body) r.rounds
  | ret keyword value =>
    cases value with
    | none => exact .pure _
    | some e => exact .bind (.of_contained (h.evaluate e)) fun _ ↦ .pure _
  | importModule keyword name => exact .of_contained (h.importModule keyword name)
  | classDecl name superclass methods classMethods =>
    exact .bind (h.declareClass name superclass methods classMethods) fun _ ↦ .pure _

end Contained

end Evaluator

/-- **The evaluator declares nothing but the names of statements in their frames, and those of
modules in the outermost one**, on any budget. -/
theorem contained_evaluatorOf (budget : Nat) : (evaluatorOf budget).Contained := by
  induction budget with
  | zero => exact ⟨fun _ ↦ .exhausted, fun _ ↦ .exhausted, fun _ _ _ ↦ .exhausted⟩
  | succ n ih => exact ⟨ih.rawStep, ih.executeStep, ih.applyStep⟩

end AliasScript
