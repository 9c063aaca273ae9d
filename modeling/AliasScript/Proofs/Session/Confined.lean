import AliasScript.Proofs.Session.History
import AliasScript.Proofs.Store.Shown

/-!
# Aliases and getters are confined

An alias is the value of a variable and nothing else: it is no element of an array and no field, it
is not bound to `this`, to `super` or to a parameter, it is passed to no call and returned by none,
and evaluating an expression never gives one. A getter is called when it is looked up, so no value
is one. `Machine.Confined` says this of a state, and `confining` of every state that a run passes
through and of the values that are passed around in between.

So whatever would be said of an alias when it is shown or compared, no program could tell
(`Store.BlindToAliases`).
-/

namespace AliasScript

/-- The value is a function that takes no list of arguments. -/
def Value.IsGetter (s : Store) : Value → Prop
  | .function id => ∃ c, s.closures[id]? = some c ∧ c.declaration.isGetter = true
  | _ => False

/-- **Aliases are where variables declare them, and no value is a getter.** -/
structure Machine.Confined (lab : Labels) (m : Machine) : Prop where
  /-- No element of an array and no field of an instance or of a class is an alias. -/
  elements : ∀ v, m.store.Has (.element v) → v.isReference = false
  /-- A frame binds an alias only to a name that its scope, or a program if the frame is the
  outermost one, declares as a variable. -/
  bindings : ∀ f x v, m.store.frames.valueIn f x = some v → v.isReference = true →
    MayAlias lab m.memory f x
  keywords : ∀ f x v, x = "this" ∨ x = "super" → m.store.frames.valueIn f x = some v →
    v.isReference = false
  parameters : ∀ f declaration x v, lab f = some (.call declaration) →
    x ∈ (declaration.parameters.getD []).map Token.lexeme → m.store.frames.valueIn f x = some v →
    v.isReference = false
  getters : ∀ v : Value, ¬ v.IsGetter m.store
  blind : m.store.BlindToAliases

/-- Aliases and getters are confined in every state. What is passed to a call, what a call or a
statement returns, and what an expression is evaluated to is no alias; only the raw value of a
variable or of a `&` may be one. -/
def confining (lab : Labels) : Watch where
  enters _ activity m := m.Confined lab ∧
    (∀ callee arguments, activity = .call callee arguments → ∀ v ∈ arguments,
      v.isReference = false) ∧
    ∀ e, activity = .node (.expr e) → ∀ budget v m',
      (evaluatorOf budget).evaluate e m = .ok v m' → v.isReference = false ∧ ¬ v.IsGetter m'.store
  leaves _ activity _ ending m' := m'.Confined lab ∧
    (∀ v, ending = .value v → v.isReference = true →
      ∃ e, activity = .node (.expr e) ∧ e.mayAlias = true) ∧
    ∀ v, ending = .flow (.returned v) → v.isReference = false

section Justified

variable {o lab : Labels} {μ : Memory} {m : Machine}

theorem Memory.Sound.not_isGetter (h : μ.Sound o) (v : Value) : ¬ v.IsGetter μ.store := by
  cases v with
  | function id =>
    rintro ⟨c, hc, hgetter⟩
    have hsome : μ.store.getter? (.function id) = some c :=
      Option.filter_eq_some_iff.2 ⟨hc, hgetter⟩
    cases (h.getter?_eq_none _).symm.trans hsome
  | _ => exact id

/-- **What is known of memory in order confines aliases and getters.** -/
theorem Memory.Sound.confined (h : m.memory.Sound o) (hlab : o.Agrees lab m.store.frames.size) :
    m.Confined lab where
  elements v hv := (h.items (.element v) hv).2
  bindings f x v hv href := by
    have hbinding := h.items (.binding f x v) hv
    exact (hbinding.mayAlias href).later (.refl _) hlab hbinding.size
  keywords f x v hx hv := (h.plain_keyword hx hv).2
  parameters f declaration x v hlabel hx hv := by
    refine Bool.eq_false_iff.2 fun href ↦ ?_
    have hbinding := h.items (.binding f x v) hv
    have halias := hbinding.mayAlias href
    unfold MayAlias at halias
    rw [← hlab f hbinding.size, hlabel] at halias
    exact halias.1 hx
  getters := h.not_isGetter
  blind := by
    refine m.store.blindToAliases fun id v hv ↦ ?_
    cases hxs : m.store.arrays[id]? with
    | none => simp [Store.elements, hxs] at hv
    | some xs =>
      have hmem : v ∈ xs := by simpa [Store.elements, hxs] using hv
      exact (h.items (.element v) (.inl ⟨xs, Array.mem_of_getElem? hxs, hmem⟩)).2

/-- **Evaluating an expression gives no alias**, on any budget. -/
theorem Runnable.not_isReference (hm : m.memory.Sound o) {e : Expr}
    (he : Runnable o m.memory m.here (.expr e)) {budget : Nat} {v : Value} {m' : Machine}
    (h : (evaluatorOf budget).evaluate e m = .ok v m') :
    v.isReference = false ∧ ¬ v.IsGetter m'.store := by
  have hsound := sound_familyOf Watch.warranted_blind budget
  obtain ⟨o', leads, hv⟩ := (hsound.evaluate hm he).of_ok h
  exact ⟨hv.2, leads.grows.sound.not_isGetter v⟩

theorem justified_confining : Watch.Justified confining where
  enters := by
    rintro o lab m activity hm hready - hlab
    refine ⟨hm.confined hlab, ?_, ?_⟩
    · rintro callee arguments rfl v hv
      exact (hready.arguments v hv).2
    · rintro e rfl budget v m' hrun
      exact Runnable.not_isReference hm hready hrun
  leaves := by
    rintro o o' lab m m' activity ending - - leads hending hlab
    refine ⟨leads.grows.sound.confined hlab, ?_, ?_⟩
    · rintro v rfl href
      cases hending with
      | @value e _ hraw => exact ⟨e, rfl, hraw.2 href⟩
      | result hv => exact absurd (hv.2.symm.trans href) (by decide)
    · rintro v rfl
      cases hending with
      | flow _ hends => exact hends.1.2.2

end Justified

/-- **Aliases and getters are confined.** Whatever sources a machine has run, there is one labelling
of its frames by scopes such that they are confined in every state of the history, in every run of
it and at its end. -/
theorem Machine.exists_labels_confining (arguments : List String) (world : World) (tracing : Bool)
    (turns : List Turn) :
    ∃ lab : Labels, lab Store.globals = none ∧
      (confining lab).FindsNothing (initial arguments world tracing) turns ∧
      ((initial arguments world tracing).after turns).Confined lab := by
  obtain ⟨lab, leads, hnothing⟩ :=
    sound_after justified_confining (rests_initial arguments world tracing) turns
  have hend := leads.grows.sound
  exact ⟨lab, hend.outermost, hnothing lab (.refl lab _), hend.confined (.refl lab _)⟩

end AliasScript
