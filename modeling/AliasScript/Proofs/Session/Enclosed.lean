import AliasScript.Proofs.Evaluation.Contained
import AliasScript.Proofs.Session.History

/-!
# Declarations stay in their frames

A frame binds the names that it was made with and those that the statements executed in it declare.
No block, call, getter, alias, store or import adds to the names of a frame that was there before,
be it one that a closure or an alias looks into, or the current one; modules alone declare among the
globals. This is so from every state and however the action ends (`Evaluator.Encloses`).

And no frame loses a name. In the middle of a run every name that is bound then is still bound at
the end of the history (`retaining`).
-/

namespace AliasScript

namespace Run

variable {α : Type}

/-- The action binds names in no frame that was there, the outermost apart. -/
def LeaksNothing (act : Run α) : Prop :=
  ∀ (m : Machine), ∀ f < m.store.frames.size, f ≠ Store.globals →
    (stateAfter act m).store.frames.namesIn f = m.store.frames.namesIn f

/-- All names that are bound stay bound. -/
def LosesNothing (act : Run α) : Prop :=
  ∀ m f, m.store.frames.namesIn f ⊆ (stateAfter act m).store.frames.namesIn f

theorem Spares.leaksNothing {act : Run α} (h : act.Contained) : act.LeaksNothing :=
  fun m f hf hglobals ↦ (h m).frames.same f hf hglobals (Set.notMem_empty f)

theorem Spares.losesNothing {own : FrameId → Set FrameId} {act : Run α} (h : act.Spares own) :
    act.LosesNothing :=
  fun m ↦ (h m).frames.keeps

end Run

/-- **Declarations do not leak** out of what an evaluator does, and names are not lost. -/
structure Evaluator.Encloses (r : Evaluator) : Prop where
  block : ∀ body, (r.execute (.block body)).LeaksNothing
  call : ∀ paren v arguments, (r.call paren v arguments).LeaksNothing
  apply : ∀ paren callee arguments, (r.apply paren callee arguments).LeaksNothing
  property : ∀ v name, (r.property v name).LeaksNothing
  superMethod : ∀ keyword method, (r.superMethod keyword method).LeaksNothing
  follow : ∀ v, (r.follow v).LeaksNothing
  store : ∀ name v, (r.store name v).LeaksNothing
  importModule : ∀ keyword name, (r.execute (.importModule keyword name)).LeaksNothing
  evaluate : ∀ e, (r.evaluate e).LeaksNothing
  /-- Any other statement binds names in the current frame at most. -/
  statement : ∀ s (m : Machine), ∀ f < m.store.frames.size, f ≠ Store.globals → f ≠ m.here →
    (Run.stateAfter (r.execute s) m).store.frames.namesIn f = m.store.frames.namesIn f
  keeps_raw : ∀ e, (r.raw e).LosesNothing
  keeps_execute : ∀ s, (r.execute s).LosesNothing
  keeps_apply : ∀ paren callee arguments, (r.apply paren callee arguments).LosesNothing
  keeps_runSource : ∀ source, (r.runSource source).LosesNothing

/-- A statement that is contained given what is nested inside is contained on any budget. -/
theorem contained_execute {s : Stmt} (h : ∀ n, ((evaluatorOf n).executeStep s).Contained)
    (budget : Nat) : ((evaluatorOf budget).execute s).Contained := by
  cases budget with
  | zero => exact .exhausted
  | succ n => exact h n

theorem encloses_evaluatorOf (budget : Nat) : (evaluatorOf budget).Encloses := by
  have h := contained_evaluatorOf budget
  exact {
    block := fun body ↦
      (contained_execute (fun n ↦ (contained_evaluatorOf n).block body) budget).leaksNothing
    call := fun paren v arguments ↦ (h.call paren v arguments).leaksNothing
    apply := fun paren callee arguments ↦ (h.apply paren callee arguments).leaksNothing
    property := fun v name ↦ (h.property v name).leaksNothing
    superMethod := fun keyword method ↦ (h.superMethod keyword method).leaksNothing
    follow := fun v ↦ (h.follow v).leaksNothing
    store := fun name v ↦ (h.store name v).leaksNothing
    importModule := fun keyword name ↦ (contained_execute
      (fun n ↦ (contained_evaluatorOf n).importModule keyword name) budget).leaksNothing
    evaluate := fun e ↦ (h.evaluate e).leaksNothing
    statement := fun s m ↦ (h.execute s m).frames.same
    keeps_raw := fun e ↦ (h.raw e).losesNothing
    keeps_execute := fun s ↦ (h.execute s).losesNothing
    keeps_apply := fun paren callee arguments ↦ (h.apply paren callee arguments).losesNothing
    keeps_runSource := fun source ↦ (h.runSource source).losesNothing }

/-! ### Histories -/

/-- No name is lost that is bound when an activity begins, or when it ends, up to a state of memory
that the run comes to. -/
def retaining (ν : Memory) : Watch where
  enters _ _ m := ∀ f, m.store.frames.namesIn f ⊆ ν.frames.namesIn f
  leaves _ _ m _ m' := (∀ f, m.store.frames.namesIn f ⊆ m'.store.frames.namesIn f) ∧
    ∀ f, m'.store.frames.namesIn f ⊆ ν.frames.namesIn f

theorem warranted_retaining : Watch.Warranted fun _ ν ↦ retaining ν where
  enters _ _ _ grows f _ hx := grows.later.bound f _ hx
  leaves _ _ leads _ grows :=
    ⟨fun f _ hx ↦ leads.grows.later.bound f _ hx, fun f _ hx ↦ grows.later.bound f _ hx⟩

namespace Machine

theorem stateAfter_runSource (budget : Nat) (m : Machine) (source : String) :
    Run.stateAfter ((evaluatorOf budget).runSource source) m = (run budget m source).2 := by
  unfold Run.stateAfter run
  cases (evaluatorOf budget).runSource source m with
  | ok result m' => cases result <;> rfl
  | error e m' => cases e <;> rfl

/-- **Turns declare their names in the frame that is current between them.** -/
theorem spares_after (m : Machine) (turns : List Turn) : m.Spares {m.here} (m.after turns) := by
  induction turns generalizing m with
  | nil => exact ⟨rfl, rfl, .refl _⟩
  | cons t rest ih =>
    have hturn : m.Spares {m.here} (run t.budget (m.ready t) t.source).2 := by
      have h := (contained_evaluatorOf t.budget).runSource t.source (m.ready t)
      rw [stateAfter_runSource] at h
      exact ⟨h.here, h.depth, h.frames⟩
    have hrest := ih (run t.budget (m.ready t) t.source).2
    rw [hturn.here] at hrest
    exact hturn.trans hrest

/-- **Declarations stay in their frames.** What the evaluator does leaks no declaration, on any
budget and from every state. From one turn to all later ones no frame loses a name, nor does it in
the middle of a run, and only the outermost frame gains any. -/
theorem declarations_enclosed (arguments : List String) (world : World) (tracing : Bool)
    (earlier later : List Turn) :
    let start := (initial arguments world tracing).after earlier
    (∀ budget, (evaluatorOf budget).Encloses) ∧
      (∀ f, start.store.frames.namesIn f ⊆ (start.after later).store.frames.namesIn f) ∧
      (retaining (start.after later).memory).FindsNothing start later ∧
      ∀ f < start.store.frames.size, f ≠ Store.globals →
        (start.after later).store.frames.namesIn f = start.store.frames.namesIn f := by
  intro start
  have hinitial := rests_initial arguments world tracing
  obtain ⟨o, leads, -⟩ := foreseen_after warranted_retaining hinitial earlier
  have hstart : start.Rests o := hinitial.leads leads
  obtain ⟨o', leads', hnothing⟩ := foreseen_after warranted_retaining hstart later
  have hspares := (spares_after start later).frames
  rw [hstart.here] at hspares
  exact ⟨encloses_evaluatorOf, hspares.keeps, hnothing o' _ leads'.grows.sound.refl,
    fun f hf hglobals ↦ hspares.same f hf hglobals hglobals⟩

end Machine

end AliasScript
