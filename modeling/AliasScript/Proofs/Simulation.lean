/-!
# Actions side by side

Two actions on states, each of which gives a value or stops, are followed side by side: started in
related states, both give related values or both stop for related reasons, and leave related states
(`Simulates`). The relation of the states stays the same throughout, so the rules below put actions
together without a look at what they do. Parsers and runs of the machine are both such actions.
-/

namespace AliasScript

variable {ε σ α β : Type}

/-- Both actions gave a value or both stopped, and what they left is related. -/
inductive Matches (S : σ → σ → Prop) (E : ε → ε → Prop) (A : α → α → Prop) :
    EStateM.Result ε σ α → EStateM.Result ε σ α → Prop
  | ok {a a' : α} {s s' : σ} : A a a' → S s s' → Matches S E A (.ok a s) (.ok a' s')
  | error {e e' : ε} {s s' : σ} : E e e' → S s s' → Matches S E A (.error e s) (.error e' s')

/-- **From related states both actions do related things.** -/
def Simulates (S : σ → σ → Prop) (E : ε → ε → Prop) (A : α → α → Prop)
    (act act' : EStateM ε σ α) : Prop :=
  ∀ s s', S s s' → Matches S E A (act s) (act' s')

namespace Simulates

variable {S : σ → σ → Prop} {E : ε → ε → Prop} {A : α → α → Prop} {B : β → β → Prop}
  {act act' : EStateM ε σ α} {next next' : α → EStateM ε σ β}

theorem pure {a a' : α} (h : A a a') : Simulates S E A (Pure.pure a) (Pure.pure a') :=
  fun _ _ hs ↦ .ok h hs

theorem throw {e e' : ε} (h : E e e') :
    Simulates S E A (MonadExcept.throw e) (MonadExcept.throw e') :=
  fun _ _ hs ↦ .error h hs

/-- **What the first actions leave related, the next ones start from.** -/
theorem bind (h : Simulates S E A act act')
    (hnext : ∀ a a', A a a' → Simulates S E B (next a) (next' a')) :
    Simulates S E B (act >>= next) (act' >>= next') := by
  intro s s' hs
  show Matches S E B (EStateM.bind act next s) (EStateM.bind act' next' s')
  unfold EStateM.bind
  cases hact : act s <;> cases hact' : act' s' <;>
    have hmatches := h s s' hs <;> rw [hact, hact'] at hmatches
  · cases hmatches with
    | ok ha hs => exact hnext _ _ ha _ _ hs
  · cases hmatches
  · cases hmatches
  · cases hmatches with
    | error he hs => exact .error he hs

/-- Where the first actions give the same value, it may be looked at. -/
theorem bindSame (h : Simulates S E Eq act act') (hnext : ∀ a, Simulates S E B (next a) (next' a)) :
    Simulates S E B (act >>= next) (act' >>= next') :=
  h.bind fun a _ ha ↦ ha ▸ hnext a

theorem map {f f' : α → β} (h : Simulates S E A act act') (hf : ∀ a a', A a a' → B (f a) (f' a')) :
    Simulates S E B (f <$> act) (f' <$> act') := by
  intro s s' hs
  show Matches S E B (EStateM.map f act s) (EStateM.map f' act' s')
  unfold EStateM.map
  cases hact : act s <;> cases hact' : act' s' <;>
    have hmatches := h s s' hs <;> rw [hact, hact'] at hmatches
  · cases hmatches with
    | ok ha hs => exact .ok (hf _ _ ha) hs
  · cases hmatches
  · cases hmatches
  · cases hmatches with
    | error he hs => exact .error he hs

theorem get : Simulates S E S MonadState.get MonadState.get :=
  fun _ _ hs ↦ .ok hs hs

theorem modified {f f' : σ → σ} (h : ∀ s s', S s s' → S (f s) (f' s')) :
    Simulates S E Eq (modify f) (modify f') :=
  fun s s' hs ↦ .ok rfl (h s s' hs)

theorem ite {p : Prop} {_ : Decidable p} {first first' second second' : EStateM ε σ α}
    (hfirst : p → Simulates S E A first first') (hsecond : ¬ p → Simulates S E A second second') :
    Simulates S E A (if p then first else second) (if p then first' else second') := by
  by_cases h : p
  · rw [if_pos h, if_pos h]
    exact hfirst h
  · rw [if_neg h, if_neg h]
    exact hsecond h

end Simulates

end AliasScript
