import AliasScript.Proofs.Evaluation.Corresponds
import AliasScript.Proofs.Machine.Renumbered
import AliasScript.Proofs.Session.History
import AliasScript.Shell

/-!
# Sources that are rejected go unnoticed

A source that is rejected is not run. It leaves the machine as it was, but for the journal and for
the indices that its tokens took (`Machine.run_of_rejected`). All later tokens get other indices for
that, and this is the only trace of it: whatever is run later, in whatever world, ends in the same
way, with the same reports and in the same world, as if the source had never been there
(`Machine.IgnoresRejected`). That holds of every state in a history, also in the middle of a run,
where a source may be rejected that is imported.
-/

namespace AliasScript

/-! ### What is seen of a run -/

/-- The outcome without indices of tokens. -/
def Outcome.outline : Outcome → Outcome
  | .rejected errors => .rejected (errors.map Diagnostic.outline)
  | .aborted f => .aborted f.outline
  | outcome => outcome

/-- What is reported of an outcome does not depend on indices. -/
theorem Outcome.report_outline (outcome : Outcome) :
    Shell.report outcome.outline = Shell.report outcome := by
  cases outcome with
  | rejected errors => exact congrArg some (Diagnostic.renderAll_outline errors)
  | aborted f => exact congrArg some f.render_outline
  | _ => rfl

theorem Outcome.Alike.outline_eq {bound k : Nat} {outcome outcome' : Outcome}
    (h : outcome.Alike (.renumbered bound k) outcome') : outcome.outline = outcome'.outline := by
  cases h with
  | rejected herrors => exact congrArg Outcome.rejected (Diagnostic.forall₂_alike_iff.1 herrors)
  | aborted hf => exact congrArg Outcome.aborted (Fault.outline_eq hf)
  | completed | breached | exhausted => rfl

/-- A source that is entered, after something may have happened outside of the machine. -/
structure Entry where
  meanwhile : World → World
  tracing : Bool
  budget : Nat
  source : String

/-- What is seen of a source that was entered: how it ended, with the kind, the place and the
spelling of every token that is blamed; what is reported of that; the world behind it, with the
output and the files; and the lines of the journal. -/
structure Answer where
  outcome : Outcome
  report : Option String
  world : World
  log : List String

namespace Machine

/-- The machine when a source is entered. -/
def opened (m : Machine) (e : Entry) : Machine :=
  { m with world := e.meanwhile m.world, journal := ⟨e.tracing, #[]⟩ }

/-- What is seen of sources that are entered one after the other. -/
def answers (m : Machine) : List Entry → List Answer
  | [] => []
  | e :: rest =>
    let (outcome, m) := run e.budget (m.opened e) e.source
    ⟨outcome.outline, Shell.report outcome, m.world, m.journal.events.toList.map Event.text⟩ ::
      m.answers rest

/-- **Machines whose tokens are numbered differently give the same answers.** -/
theorem answers_eq {b k : Nat} {m m' : Machine}
    (h : ∀ journal, { m with journal := journal }.Renumbered b k { m' with journal := journal })
    (entries : List Entry) : m.answers entries = m'.answers entries := by
  induction entries generalizing m m' with
  | nil => rfl
  | cons e rest ih =>
    have hopened : (m.opened e).Renumbered b k (m'.opened e) :=
      { h ⟨e.tracing, #[]⟩ with world := congrArg e.meanwhile (h ⟨e.tracing, #[]⟩).world }
    obtain ⟨houtcome, hm⟩ := run_alike (C := renumbering b k) hopened e.budget e.source
    have houtline := houtcome.outline_eq
    have hreport : Shell.report (run e.budget (m.opened e) e.source).1 =
        Shell.report (run e.budget (m'.opened e) e.source).1 := by
      rw [← Outcome.report_outline, houtline, Outcome.report_outline]
    simp only [answers, houtline, hreport]
    rw [hm.world, hm.journal.texts, ih fun journal ↦ { hm with journal := ⟨rfl, rfl⟩ }]

/-! ### Rejected sources -/

/-- A source that is rejected takes indices for its tokens, and is noted in the journal. -/
theorem run_of_rejected {m : Machine} {budget : Nat} {source : String} {errors : List Diagnostic}
    (h : (run budget m source).1 = .rejected errors) :
    (run budget m source).2 = m.loaded (Scan.ofSource m.nextIndex source) := by
  have hentered := Evaluator.enterSource_eq m source
  unfold run at h ⊢
  rw [Evaluator.runSource_eq] at h ⊢
  simp only [bind, EStateM.bind, hentered] at h ⊢
  generalize Except.bind (Scan.ofSource m.nextIndex source).program? Program.resolve = loaded at h ⊢
  cases loaded with
  | error found => rfl
  | ok resolved =>
    -- What is run ends in some other way.
    dsimp only [EStateM.bind] at h
    generalize Run.notingFault _ _ = result at h
    cases result with
    | ok _ m' => cases h
    | error e m' => cases e <;> cases h

/-- The machine is as it was, but for the journal and the index of the next token. -/
structure Unmoved (m m' : Machine) : Prop where
  store : m'.store = m.store
  here : m'.here = m.here
  depth : m'.depth = m.depth
  distances : m'.distances = m.distances
  world : m'.world = m.world

/-- The machine before a source that is run in a frame: one of a turn, or a module that is imported.
-/
def before (m : Machine) (here : FrameId) (t : Turn) : Machine :=
  { m with here := here, world := t.world, journal := t.journal }

/-- **A source that is rejected goes unnoticed**, in whatever frame and world it is run: it leaves
the machine unmoved, and all that is entered later is answered as if it had not been run. -/
def IgnoresRejected (m : Machine) : Prop :=
  ∀ (here : FrameId) (t : Turn) (errors : List Diagnostic),
    (run t.budget (m.before here t) t.source).1 = .rejected errors →
      Unmoved (m.before here t) (run t.budget (m.before here t) t.source).2 ∧
      ∀ entries, (run t.budget (m.before here t) t.source).2.answers entries =
        (m.before here t).answers entries

/-- The indices that a rejected source took do not matter where memory is in order: no use of a name
that is held there has one of them, and none of them has a distance. -/
theorem ignoresRejected_of_sound {o : Labels} {m : Machine} (hm : m.memory.Sound o) :
    m.IgnoresRejected := by
  intro here t errors hrejected
  rw [run_of_rejected hrejected]
  refine ⟨⟨rfl, rfl, rfl, rfl, rfl⟩, ?_⟩
  refine answers_eq (k := (Scan.ofSource m.nextIndex t.source).all.length) (b := m.nextIndex)
    fun journal ↦ ⟨?_, rfl, rfl, rfl, ?_, Nat.le_refl _, hm.find?_renumber _, ⟨rfl, rfl⟩⟩
  · exact hm.store_alike (fun _ ↦ rfl) fun t ht ↦ ⟨rfl, (renumber_of_lt _ ht).symm⟩
  · exact Scan.nextIndex_eq m.nextIndex t.source

end Machine

/-- Rejected sources go unnoticed wherever an activity begins or ends. -/
def ignoring : Watch where
  enters _ _ m := m.IgnoresRejected
  leaves _ _ _ _ m' := m'.IgnoresRejected

theorem justified_ignoring : Watch.Justified fun _ ↦ ignoring where
  enters hm _ _ _ := Machine.ignoresRejected_of_sound hm
  leaves _ _ leads _ _ := Machine.ignoresRejected_of_sound leads.grows.sound

/-- **A source that is rejected goes unnoticed**, whatever the machine has run before: between two
turns of a history, and at every activity of each of them. -/
theorem Machine.ignoresRejected_after (arguments : List String) (world : World) (tracing : Bool)
    (turns : List Turn) :
    ignoring.FindsNothing (initial arguments world tracing) turns ∧
      ((initial arguments world tracing).after turns).IgnoresRejected := by
  obtain ⟨o, leads, hnothing⟩ :=
    sound_after justified_ignoring (rests_initial arguments world tracing) turns
  exact ⟨hnothing o (.refl o _), ignoresRejected_of_sound leads.grows.sound⟩

/-- A declaration without a name is rejected, and nothing that is run later is any different for it.
-/
theorem Machine.ignoresRejected_unnamed :
    (run 9 (initial [] .empty false) "var = 2").1 =
        .rejected [.grammar ⟨⟨.equal, "=", 1, 4, 1, .nil⟩, .variableName⟩] ∧
      ∀ entries, (run 9 (initial [] .empty false) "var = 2").2.answers entries =
        (initial [] .empty false).answers entries := by
  have hrejected : (run 9 (initial [] .empty false) "var = 2").1 =
      .rejected [.grammar ⟨⟨.equal, "=", 1, 4, 1, .nil⟩, .variableName⟩] := by decide +kernel
  obtain ⟨-, hignores⟩ := ignoresRejected_after [] .empty false []
  exact ⟨hrejected, (hignores Store.globals ⟨.empty, ⟨false, #[]⟩, 9, "var = 2"⟩ _ hrejected).2⟩

end AliasScript
