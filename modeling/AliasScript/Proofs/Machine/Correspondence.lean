import AliasScript.Evaluation.Module
import AliasScript.Proofs.Scope.Rewalked
import AliasScript.Proofs.Store.Likeness

/-!
# Machines that correspond

Two machines are run side by side, on programs that are alike. What has to be known of them is
collected in a `Correspondence`: a relation of machines under which everything that a program can
find out is the same in both, and which is kept by the few ways in which a run changes a machine.
Journals, tables of distances and numbers of tokens may differ as the relation allows.

Actions that correspond (`Run.Alike`) are put together by the rules for actions side by side; the
rules here are about the actions that look at a machine or change it.
-/

namespace AliasScript

/-! ### Stops and notes -/

/-- The same cause, up to the diagnostics of a module. -/
inductive FaultCause.Alike (L : Likeness) : FaultCause → FaultCause → Prop
  | same {cause : FaultCause} : FaultCause.Alike L cause cause
  | moduleRejected {name : String} {errors errors' : List Diagnostic} :
      List.Forall₂ (Diagnostic.Alike L) errors errors' →
      FaultCause.Alike L (.moduleRejected name errors) (.moduleRejected name errors')

/-- Faults of causes that are alike at tokens that are alike. -/
structure Fault.Alike (L : Likeness) (f f' : Fault) : Prop where
  token : L.mark f.token f'.token
  cause : f.cause.Alike L f'.cause

/-- Stops for the same reason. -/
inductive Halt.Alike (L : Likeness) : Halt → Halt → Prop
  | fault {f f' : Fault} : f.Alike L f' → Halt.Alike L (.fault f) (.fault f')
  | breach {b : Breach} : Halt.Alike L (.breach b) (.breach b)
  | exhausted : Halt.Alike L .exhausted .exhausted

/-- What is noted alike while a program is running. -/
inductive Event.Alike (L : Likeness) : Event → Event → Prop
  | importing {path : String} : Event.Alike L (.importing path) (.importing path)
  | running {name : String} : Event.Alike L (.running name) (.running name)
  | calling {name : String} {arguments : Nat} :
      Event.Alike L (.calling name arguments) (.calling name arguments)
  | aborted {f f' : Fault} : f.Alike L f' → Event.Alike L (.aborted f) (.aborted f')

/-! ### Entering a source -/

/-- Makes a program of a source and adds its distances to the table, if nothing is wrong with it. -/
def Evaluator.enterSource (source : String) : Run (Except (List Diagnostic) Program) := do
  match ← load source with
  | .error errors => return .error errors
  | .ok resolved =>
    modify fun m ↦ { m with distances := m.distances.extend resolved.addresses }
    return .ok resolved.program

/-- What is noted while a scanned source is loaded. -/
def Scan.events (s : Scan) : List Event :=
  .scanned s ::
    match s.program? with
    | .error _ => []
    | .ok program =>
      .parsed program.length ::
        match program.resolve with
        | .error _ => []
        | .ok resolved => [.resolved resolved.addresses]

/-- The machine when a scanned source has been loaded. -/
def Machine.loaded (m : Machine) (s : Scan) : Machine :=
  { m with nextIndex := s.nextIndex, journal := s.events.foldl Journal.note m.journal }

/-- **Entering a source** takes indices for its tokens, and adds to the journal and to the table. -/
theorem Evaluator.enterSource_eq (m : Machine) (source : String) :
    enterSource source m =
      match (Scan.ofSource m.nextIndex source).program? >>= Program.resolve with
      | .error errors => .ok (.error errors) (m.loaded (Scan.ofSource m.nextIndex source))
      | .ok resolved => .ok (.ok resolved.program)
        { m.loaded (Scan.ofSource m.nextIndex source) with
            distances := m.distances.extend resolved.addresses } := by
  cases hparsed : (Scan.ofSource m.nextIndex source).program? with
  | error errors =>
    simp only [enterSource, load, bind, EStateM.bind, Run.read, modify, modifyGet, hparsed]
    simp only [Machine.loaded, Scan.events, hparsed]
    rfl
  | ok program =>
    cases hresolve : program.resolve with
    | error errors =>
      simp only [enterSource, load, bind, EStateM.bind, Run.read, modify, modifyGet, hparsed,
        Except.bind, hresolve]
      simp only [Machine.loaded, Scan.events, hparsed, hresolve]
      rfl
    | ok resolved =>
      simp only [enterSource, load, bind, EStateM.bind, Run.read, modify, modifyGet, hparsed,
        Except.bind, hresolve]
      simp only [Machine.loaded, Scan.events, hparsed, hresolve]
      rfl

/-- A source is run by entering it and executing its statements. -/
theorem Evaluator.runSource_eq (r : Evaluator) (source : String) :
    r.runSource source = enterSource source >>= fun
      | .error errors => pure (.error errors)
      | .ok program => do
        Run.notingFault (r.executeTop program)
        return .ok () := by
  unfold runSource enterSource
  rw [bind_assoc]
  congr 1
  funext loaded
  cases loaded with
  | error errors => rw [pure_bind]
  | ok resolved => simp only [bind_assoc, pure_bind]

/-! ### Correspondences -/

/-- What a program can find out is the same in both machines. -/
structure Machine.Similar (L : Likeness) (m m' : Machine) : Prop where
  store : m.store.Alike L m'.store
  here : m.here = m'.here
  depth : m.depth = m'.depth
  world : m.world = m'.world
  distances : ∀ {t t' : Token}, L.use t t' →
    m.distances.find? t.index = m'.distances.find? t'.index

/-- **A relation of machines that is kept while programs that are alike are run.** -/
structure Correspondence where
  like : Likeness
  rel : Machine → Machine → Prop
  similar : ∀ {m m' : Machine}, rel m m' → m.Similar like m'
  /-- Both machines may change their stores, as long as these stay alike, and all that is the same
  in both. -/
  update : ∀ {m m' : Machine} {s s' : Store}, rel m m' → s.Alike like s' →
    ∀ (here : FrameId) (depth : Nat) (world : World),
    rel { m with store := s, here := here, depth := depth, world := world }
      { m' with store := s', here := here, depth := depth, world := world }
  note : ∀ {m m' : Machine} {e e' : Event}, rel m m' → e.Alike like e' →
    rel { m with journal := m.journal.note e } { m' with journal := m'.journal.note e' }
  /-- A source that is entered gives programs that are alike, or errors that are. -/
  enter : ∀ source : String, Simulates rel (Halt.Alike like)
    (Except.Both (List.Forall₂ (Diagnostic.Alike like)) (List.Forall₂ (Stmt.Alike like)))
    (Evaluator.enterSource source) (Evaluator.enterSource source)

/-- Actions that do the same on machines that correspond. -/
abbrev Run.Alike {α : Type} (C : Correspondence) (A : α → α → Prop) (act act' : Run α) : Prop :=
  Simulates C.rel (Halt.Alike C.like) A act act'

namespace Correspondence

variable {C : Correspondence} {m m' : Machine} (h : C.rel m m')

include h

/-- What is changed to the same in both machines need not be written in the same way. -/
theorem change {s s' : Store} (hs : s.Alike C.like s') {f f' : FrameId} (hf : f = f')
    {n n' : Nat} (hn : n = n') {w w' : World} (hw : w = w') :
    C.rel { m with store := s, here := f, depth := n, world := w }
      { m' with store := s', here := f', depth := n', world := w' } := by
  subst hf hn hw
  exact C.update h hs f n w

/-- Both machines take on stores that are alike. -/
theorem withStore {s s' : Store} (hs : s.Alike C.like s') :
    C.rel { m with store := s } { m' with store := s' } :=
  C.change h hs (C.similar h).here (C.similar h).depth (C.similar h).world

/-- Both go to the same frame. -/
theorem withHere (f : FrameId) : C.rel { m with here := f } { m' with here := f } :=
  C.change h (C.similar h).store rfl (C.similar h).depth (C.similar h).world

/-- Both count as many calls. -/
theorem withDepth (n : Nat) : C.rel { m with depth := n } { m' with depth := n } :=
  C.change h (C.similar h).store (C.similar h).here rfl (C.similar h).world

theorem withWorld (w : World) : C.rel { m with world := w } { m' with world := w } :=
  C.change h (C.similar h).store (C.similar h).here (C.similar h).depth rfl

end Correspondence

namespace Run

variable {C : Correspondence} {α : Type} {A : α → α → Prop}

/-! ### Stops, reading and notes -/

/-- A fault at either token has a cause that is alike. -/
theorem alike_fault {t t' : Token} (ht : C.like.mark t t') {cause cause' : FaultCause}
    (hcause : cause.Alike C.like cause') : Alike C A (fault t cause) (fault t' cause') :=
  .throw (.fault ⟨ht, hcause⟩)

/-- A breach ends both runs. -/
theorem alike_breach (b : Breach) : Alike C A (breach b) (breach b) :=
  .throw .breach

theorem alike_exhausted : Alike C A exhausted exhausted :=
  .throw .exhausted

/-- **What is read off machines that correspond is related.** -/
theorem alike_read {f f' : Machine → α}
    (h : ∀ m m', m.Similar C.like m' → A (f m) (f' m')) : Alike C A (read f) (read f') :=
  fun m m' hm ↦ .ok (h m m' (C.similar hm)) hm

/-- What is required is there in both, or both end in the breach. -/
theorem alike_require {x x' : Option α} (h : Option.Rel A x x') (b : Breach) :
    Alike C A (require b x) (require b x') := by
  cases h with
  | none => exact alike_breach b
  | some ha => exact .pure ha

/-- Events that are alike are noted. -/
theorem alike_note {e e' : Event} (h : e.Alike C.like e') : Alike C Eq (note e) (note e') :=
  .modified fun _ _ hm ↦ C.note hm h

/-! ### Actions in another frame, in a call, and under a note -/

variable {act act' : Run α}

/-- **In another frame**, both come back to the one that they were in. -/
theorem alike_inFrame (h : Alike C A act act') (f : FrameId) :
    Alike C A (inFrame f act) (inFrame f act') := by
  intro m m' hm
  have hmatches := h _ _ (C.withHere hm f)
  unfold inFrame
  dsimp only
  rw [(C.similar hm).here]
  generalize act { m with here := f } = result at hmatches
  generalize act' { m' with here := f } = result' at hmatches
  cases hmatches with
  | ok ha hm => exact .ok ha (C.withHere hm _)
  | error he hm => exact .error he (C.withHere hm _)

/-- In a call, both go back to the depth that they had. -/
theorem alike_inCall (h : Alike C A act act') : Alike C A (inCall act) (inCall act') := by
  intro m m' hm
  have hmatches := h _ _ (C.withDepth hm (m.depth + 1))
  unfold inCall
  rw [← (C.similar hm).depth]
  generalize act { m with depth := m.depth + 1 } = result at hmatches
  generalize act' { m' with depth := m.depth + 1 } = result' at hmatches
  have hback {m m' : Machine} (hm : C.rel m m') :
      C.rel { m with depth := m.depth - 1 } { m' with depth := m'.depth - 1 } :=
    (C.similar hm).depth ▸ C.withDepth hm (m.depth - 1)
  cases hmatches with
  | ok ha hm => exact .ok ha (hback hm)
  | error he hm => exact .error he (hback hm)

/-- A fault is noted on both sides, and goes on. -/
theorem alike_notingFault (h : Alike C A act act') :
    Alike C A (notingFault act) (notingFault act') := by
  intro m m' hm
  have hmatches := h m m' hm
  unfold notingFault
  generalize act m = result at hmatches
  generalize act' m' = result' at hmatches
  cases hmatches with
  | ok ha hm => exact .ok ha hm
  | error he hm =>
    cases he with
    | fault hf => exact .error (.fault hf) (C.note hm (.aborted hf))
    | breach => exact .error .breach hm
    | exhausted => exact .error .exhausted hm

/-! ### World and store -/

/-- What is asked of the world has the same answer. -/
theorem alike_onWorld (f : World → α × World) : Alike C Eq (onWorld f) (onWorld f) := by
  intro m m' hm
  show Matches _ _ _ (.ok (f m.world).1 _) (.ok (f m'.world).1 _)
  rw [← (C.similar hm).world]
  exact .ok rfl (C.withWorld hm _)

/-- What is done to the world is the same. -/
theorem alike_changeWorld (f : World → World) : Alike C Eq (changeWorld f) (changeWorld f) := by
  intro m m' hm
  show Matches _ _ _ (.ok () _) (.ok () { m' with world := f m'.world })
  rw [← (C.similar hm).world]
  exact .ok rfl (C.withWorld hm _)

/-- An action on stores gives results that are alike if it does so on all stores that are. -/
theorem alike_onStore {f f' : Store → α × Store}
    (h : ∀ s s', s.Alike C.like s' → A (f s).1 (f' s').1 ∧ (f s).2.Alike C.like (f' s').2) :
    Alike C A (onStore f) (onStore f') := by
  intro m m' hm
  obtain ⟨ha, hs⟩ := h _ _ (C.similar hm).store
  exact .ok ha (C.withStore hm hs)

theorem alike_changeStore {f f' : Store → Store}
    (h : ∀ s s', s.Alike C.like s' → (f s).Alike C.like (f' s')) :
    Alike C Eq (changeStore f) (changeStore f') :=
  .modified fun _ _ hm ↦ C.withStore hm (h _ _ (C.similar hm).store)

/-- The same name is bound to the same value. -/
theorem alike_define (f : FrameId) (name : String) (v : Value) :
    Alike C Eq (define f name v) (define f name v) :=
  alike_changeStore fun _ _ hs ↦ hs.define f name v

/-- New frames have the same number. -/
theorem alike_newFrame (parent : FrameId) (bindings : Bindings Value) :
    Alike C Eq (newFrame parent bindings) (newFrame parent bindings) :=
  alike_onStore fun _ _ hs ↦ hs.addFrame parent bindings

/-- New arrays have the same number. -/
theorem alike_newArray (elements : Array Value) :
    Alike C Eq (newArray elements) (newArray elements) :=
  alike_onStore fun _ _ hs ↦ hs.addArray elements

/-- New closures have the same number, with bodies that are alike. -/
theorem alike_newClosure {c c' : Closure} (hc : c.Alike C.like c') :
    Alike C Eq (newClosure c) (newClosure c') :=
  alike_onStore fun _ _ hs ↦ hs.addClosure hc

/-- The text of a value is the same. -/
theorem alike_text (v : Value) : Alike C Eq (text v) (text v) :=
  alike_read fun _ _ hm ↦ hm.store.text_eq v

/-- The elements of an array are the same. -/
theorem alike_elements (id : Nat) : Alike C Eq (elements id) (elements id) := by
  refine .bindSame (alike_read fun m m' hm ↦ by rw [hm.store.arrays]) fun x ↦ ?_
  exact alike_require (option_rel_self fun _ _ ↦ rfl) _

/-- An array is changed in both stores. -/
theorem alike_changeArray (id : Nat) (f : Array Value → Array Value) :
    Alike C Eq (changeArray id f) (changeArray id f) :=
  alike_changeStore fun _ _ hs ↦ hs.changeArray id f

/-! ### Variables -/

variable {t t' : Token} (ht : C.like.use t t')

include ht

/-- **A use of a name finds its frame at the same distance.** -/
theorem alike_binder? : Alike C Eq (binder? t) (binder? t') :=
  alike_read fun m m' hm ↦ by
    rw [hm.distances ht, hm.store.frames, hm.here, C.like.lexeme_eq (C.like.mark_of_use ht)]

/-- So it reads the same value. -/
theorem alike_lookup : Alike C Eq (lookup t) (lookup t') := by
  have hlexeme := C.like.lexeme_eq (C.like.mark_of_use ht)
  refine .bindSame (alike_binder? ht) fun binder ↦
    .bindSame (alike_read fun m m' hm ↦ by rw [hm.store.frames, hlexeme]) fun found ↦ ?_
  cases found with
  | some v => exact .pure rfl
  | none => exact hlexeme ▸ alike_fault (C.like.mark_of_use ht) .same

/-- And what is written is written to the same frame. -/
theorem alike_overwrite (v : Value) : Alike C Eq (overwrite t v) (overwrite t' v) := by
  have hlexeme := C.like.lexeme_eq (C.like.mark_of_use ht)
  refine .bindSame (alike_binder? ht) fun binder ↦ ?_
  rw [hlexeme]
  cases binder with
  | some f => exact alike_define f _ v
  | none => exact alike_fault (C.like.mark_of_use ht) .same

end Run

end AliasScript
