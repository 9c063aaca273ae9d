import AliasScript.Proofs.Session.History

/-!
# No breach

The evaluator has branches for states that should not be, and each of them stops with a `Breach`: an
operator that is none, an alias of what is no place, a `this` or a `super` that is not bound, an
initializer without a receiver, a class whose name is not bound where it was just bound, a `return`
that no function takes. None of them is ever taken when a source is run that was accepted, whatever
was run before. Each is excluded for a reason of its own, which is found where the clause is shown
to keep memory in order; a breach is never caught, so it would be seen in the outcome of the run.
-/

namespace AliasScript

/-- No activity ends at a breach, and a `this` is always found. -/
def unbroken : Watch where
  enters _ activity m := ∀ keyword, activity = .node (.expr (.this keyword)) →
    ∀ r : Evaluator, ∃ v, r.rawStep (.this keyword) m = .ok v m
  leaves _ _ _ ending _ := ∀ b, ending ≠ .halt (.breach b)

theorem justified_unbroken : Watch.Justified fun _ ↦ unbroken where
  enters := by
    rintro o lab m activity - hready - - keyword rfl r
    obtain ⟨-, v, -, hruns⟩ := Runnable.rawStep_this hready
    exact ⟨v, hruns r⟩
  leaves := by
    rintro o o' lab m m' activity ending - - - hending - b rfl
    cases hending with
    | halt hhalt => exact hhalt b rfl

/-- **A source ends at no breach**, whatever the machine has run before. -/
theorem Machine.run_ne_breached (arguments : List String) (world : World) (tracing : Bool)
    (turns : List Turn) :
    unbroken.FindsNothing (initial arguments world tracing) turns ∧
      ∀ (t : Turn) (b : Breach),
        (run t.budget (((initial arguments world tracing).after turns).ready t) t.source).1 ≠
          .breached b := by
  have hstart := rests_initial arguments world tracing
  obtain ⟨o, leads, hnothing⟩ := sound_after justified_unbroken hstart turns
  refine ⟨hnothing o (.refl o _), fun t b ↦ ?_⟩
  exact (sound_run justified_unbroken ((hstart.leads leads).ready t) t.budget t.source).1 b

end AliasScript
