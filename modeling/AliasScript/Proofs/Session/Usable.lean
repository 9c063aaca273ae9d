import AliasScript.Proofs.Evaluation.Contained
import AliasScript.Proofs.Session.History

/-!
# A machine stays usable

Whatever a source does and however it ends, the next one finds the machine in the outermost frame
with no call active. There are two sides to this. An action that is aborted comes back like one that
ends (`Evaluator.ComesBack`), from any state, so nothing has to be known of the program. And while a
program runs, the number that the machine counts is the number of calls that are active, which a
watched evaluator knows without the machine, since it is made anew for each call (`counting`).
-/

namespace AliasScript

/-- **The action comes back** to the current frame and to the number of active calls. -/
def Run.Restores {α : Type} (act : Run α) : Prop :=
  ∀ m, (stateAfter act m).here = m.here ∧ (stateAfter act m).depth = m.depth

theorem Run.Spares.restores {α : Type} {own : FrameId → Set FrameId} {act : Run α}
    (h : act.Spares own) : act.Restores :=
  fun m ↦ ⟨(h m).here, (h m).depth⟩

/-- **All that an evaluator does comes back** to the current frame and to the number of active
calls, also if it is aborted. -/
structure Evaluator.ComesBack (r : Evaluator) : Prop where
  raw : ∀ e, (r.raw e).Restores
  evaluate : ∀ e, (r.evaluate e).Restores
  execute : ∀ s, (r.execute s).Restores
  call : ∀ paren v arguments, (r.call paren v arguments).Restores
  follow : ∀ v, (r.follow v).Restores
  store : ∀ name v, (r.store name v).Restores
  runModule : ∀ keyword name source, (r.runModule keyword name source).Restores
  runSource : ∀ source, (r.runSource source).Restores

theorem comesBack_evaluatorOf (budget : Nat) : (evaluatorOf budget).ComesBack := by
  have h := contained_evaluatorOf budget
  exact ⟨fun e ↦ (h.raw e).restores, fun e ↦ (h.evaluate e).restores,
    fun s ↦ (h.execute s).restores, fun paren v arguments ↦ (h.call paren v arguments).restores,
    fun v ↦ (h.follow v).restores, fun name v ↦ (h.store name v).restores,
    fun keyword name source ↦ (h.runModule keyword name source).restores,
    fun source ↦ (h.runSource source).restores⟩

/-! ### Calls at the limit -/

namespace Evaluator

variable (r : Evaluator) {m : Machine} (hm : maxDepth ≤ m.depth) (paren : Token)
  (arguments : List Value)

include hm

/-- At the limit nothing is called, whatever the evaluator would do inside of the call. -/
theorem invoke_of_maxDepth_le (callee : Callee) :
    r.invoke paren callee arguments m = .error (.fault ⟨paren, .stackDepth⟩) m := by
  show (if maxDepth ≤ m.depth then Run.fault paren .stackDepth else _ : Run Value) m = _
  rw [if_pos hm]
  rfl

theorem call_of_maxDepth_le (v : Value) :
    ∃ cause, r.call paren v arguments m = .error (.fault ⟨paren, cause⟩) m := by
  cases hcallee : m.store.callee? v with
  | none =>
    simp only [call, bind, EStateM.bind, Run.read, hcallee]
    exact ⟨_, rfl⟩
  | some callee =>
    simp only [call, bind, EStateM.bind, Run.read, hcallee]
    split
    · exact ⟨_, r.invoke_of_maxDepth_le hm paren arguments callee⟩
    · exact ⟨_, rfl⟩

end Evaluator

/-! ### Counting calls -/

/-- The machine counts the active calls, and there are never too many of them. An activity is left
in the frame and inside of the calls in which it was begun. -/
def counting : Watch where
  enters calls _ m := m.depth = calls ∧ calls ≤ maxDepth
  leaves calls _ m _ m' := m'.here = m.here ∧ m'.depth = calls

theorem justified_counting : Watch.Justified fun _ ↦ counting where
  enters _ _ hdepth _ := ⟨rfl, hdepth⟩
  leaves _ _ leads _ _ := ⟨leads.here, leads.depth⟩

/-- **A machine stays usable.** After any history it is in the outermost frame and no call is
active; in every run of the history the calls are counted right and are not too many; on any budget
the evaluator comes back from all that it does; and a call at the limit is refused. -/
theorem Machine.usable_after (arguments : List String) (world : World) (tracing : Bool)
    (turns : List Turn) :
    ((initial arguments world tracing).after turns).here = Store.globals ∧
      ((initial arguments world tracing).after turns).depth = 0 ∧
      counting.FindsNothing (initial arguments world tracing) turns ∧
      (∀ budget, (evaluatorOf budget).ComesBack) ∧
      ∀ (r : Evaluator) (m : Machine), maxDepth ≤ m.depth → ∀ paren arguments,
        (∀ callee, r.invoke paren callee arguments m = .error (.fault ⟨paren, .stackDepth⟩) m) ∧
        ∀ v, ∃ cause, r.call paren v arguments m = .error (.fault ⟨paren, cause⟩) m := by
  have hstart := rests_initial arguments world tracing
  obtain ⟨o, leads, hnothing⟩ := sound_after justified_counting hstart turns
  have hend := hstart.leads leads
  exact ⟨hend.here, hend.depth, hnothing o (.refl o _), comesBack_evaluatorOf,
    fun r m hm paren arguments ↦ ⟨r.invoke_of_maxDepth_le hm paren arguments,
      r.call_of_maxDepth_le hm paren arguments⟩⟩

end AliasScript
