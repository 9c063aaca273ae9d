import AliasScript.Evaluation.Place
import AliasScript.Proofs.Evaluation.Call

/-!
# Properties, elements and variables

Reading a place gives a live value, and a plain one unless the place is a variable. Storing a plain
value keeps memory in order: into a field or an element because plain values may stand there, and
into a variable because the frame binds it already, so its scope declares it. A store through an
alias ends in one of these.
-/

namespace AliasScript

/-! ### Frames that bind a name -/

namespace Frames

variable {fs : Frames} {f g : FrameId} {name : String}

theorem isSome_of_findWithin {n : Nat} (h : findWithin fs name n f = some g) :
    (valueIn fs g name).isSome := by
  induction n generalizing f with
  | zero => cases h
  | succ n ih =>
    rw [findWithin] at h
    split at h
    · next hbound => exact Option.some.inj h ▸ hbound
    · obtain ⟨f', -, hfind⟩ := Option.bind_eq_some_iff.1 h
      exact ih hfind

theorem isSome_of_find? (h : find? fs f name = some g) : (valueIn fs g name).isSome :=
  isSome_of_findWithin h

theorem isSome_of_binderAt? {distance : Nat} (h : binderAt? fs f distance name = some g) :
    (valueIn fs g name).isSome :=
  (Option.filter_eq_some_iff.1 h).2

end Frames

/-- A frame that binds a name can bind it to any other plain value. -/
theorem Memory.Sound.bindingSound {o : Labels} {μ : Memory} (h : μ.Sound o) {f : FrameId}
    {x : String} (hbound : (μ.frames.valueIn f x).isSome) {v : Value} (hv : v.Plain μ.store) :
    BindingSound o μ f x v := by
  obtain ⟨old, hold⟩ := Option.isSome_iff_exists.1 hbound
  have hbinding := h.items (.binding f x old) hold
  exact ⟨hbinding.size, hv.1, hbinding.declared,
    fun href ↦ absurd (hv.2.symm.trans href) (by decide)⟩

/-- No value is a getter: a function that takes no list of arguments is called when it is looked up,
and does not become a value. -/
theorem Memory.Sound.getter?_eq_none {o : Labels} {μ : Memory} (h : μ.Sound o) (v : Value) :
    μ.store.getter? v = none := by
  cases v with
  | function id =>
    refine Option.filter_eq_none_iff.2 fun c hc ↦ ?_
    have hparameters := (h.items (.closure c) (Array.mem_of_getElem? hc)).1
    simpa [Function.isGetter, Option.isSome_iff_ne_none] using hparameters
  | _ => rfl

namespace Meets

variable {A : Family} {o : Labels} {m : Machine} {v w index : Value}

/-! ### Variables -/

theorem lookup (hm : m.memory.Sound o) (name : Token) :
    Meets A o m (fun _ ↦ Run.lookup name) fun _ μ v ↦ v.Live μ.store := by
  refine .read (.read ?_)
  split
  · next v hv =>
    obtain ⟨f, -, hv⟩ := Option.bind_eq_some_iff.1 hv
    exact .pure hm (hm.items (.binding f name.lexeme v) hv).live
  · exact .fault hm

/-- **Overwriting a variable keeps memory in order.** -/
theorem overwrite (hm : m.memory.Sound o) {name : Token} (hname : name.Ordinary)
    (hv : v.Plain m.memory.store) :
    Meets A o m (fun _ ↦ Run.overwrite name v) fun _ _ _ ↦ True := by
  refine .read ?_
  split
  · next f hf =>
    have hbound : (m.memory.frames.valueIn f name.lexeme).isSome := by
      split at hf
      · exact Frames.isSome_of_binderAt? hf
      · exact Frames.isSome_of_find? hf
    exact .changeStore (hm.define hname (hm.bindingSound hbound hv)) trivial
  · exact .fault hm

/-! ### Elements -/

/-- A position is one inside an array that is there. -/
theorem position (hm : m.memory.Sound o) (bracket : Token) (hv : v.Plain m.memory.store) :
    Meets A o m (fun _ ↦ Evaluator.position bracket v index) fun _ μ p ↦
      ∃ xs, μ.store.arrays[p.1]? = some xs ∧ p.2 < xs.size := by
  unfold Evaluator.position
  cases v with
  | array id =>
    have hid : m.store.arrays[id]? = some _ := Array.getElem?_eq_getElem hv.1
    refine .elements hid ?_
    cases index with
    | num x =>
      dsimp only
      split
      · next i hi => exact .pure hm ⟨_, hid, Number.position?_lt hi⟩
      · exact .fault hm
    | _ => exact .fault hm
  | _ => exact .fault hm

theorem element (hm : m.memory.Sound o) (bracket : Token) (hv : v.Plain m.memory.store) :
    Meets A o m (fun _ ↦ Evaluator.element bracket v index) IsPlain := by
  refine .bind (.position hm bracket hv) ?_
  rintro o' m' ⟨id, i⟩ leads ⟨xs, hxs, hi⟩
  refine .elements hxs (.required leads.grows.sound (Array.getElem?_eq_getElem hi) ?_)
  exact leads.grows.sound.items (.element _)
    (.inl ⟨xs, Array.mem_of_getElem? hxs, Array.getElem_mem hi⟩)

theorem setElement (hm : m.memory.Sound o) (bracket : Token) (hv : v.Plain m.memory.store)
    (hw : w.Plain m.memory.store) :
    Meets A o m (fun _ ↦ Evaluator.setElement bracket v index w) fun _ _ _ ↦ True := by
  refine .bind (.position hm bracket hv) ?_
  rintro o' m' ⟨id, i⟩ leads -
  refine .changeStore (leads.grows.sound.changeArray fun xs _ x hx ↦ ?_) trivial
  rcases Array.mem_or_eq_of_mem_setIfInBounds hx with hx | rfl
  · exact .inl hx
  · exact .inr (hw.later leads.grows.later)

/-! ### Fields -/

theorem setProperty (hm : m.memory.Sound o) (name : Token) (hw : w.Plain m.memory.store) :
    Meets A o m (fun _ ↦ Evaluator.setProperty v name w) fun _ _ _ ↦ True := by
  unfold Evaluator.setProperty
  cases v with
  | object id => exact .changeStore (hm.setObjectField hw id name.lexeme) trivial
  | classValue id => exact .changeStore (hm.setClassField hw id name.lexeme) trivial
  | _ => exact .fault hm

/-- A field is a value as it is. -/
theorem fieldValue (hm : m.memory.Sound o) (name : Token) (hw : w.Plain m.memory.store) :
    Meets A o m (fun r ↦ r.fieldValue name w) IsPlain := by
  refine .read ?_
  rw [show m.store.getter? w = none from hm.getter?_eq_none w]
  exact .pure hm hw

end Meets

namespace Family.Sound

variable {A : Family} (hA : A.Sound) {o : Labels} {m : Machine} {v w : Value}

include hA

/-- **A method becomes a value only if it is no getter**; a getter is called. -/
theorem methodValue (hm : m.memory.Sound o) (hhere : m.here < m.store.frames.size) (name : Token)
    {method : Closure} (hmethod : method.Callable o m.memory) :
    Meets A o m (fun r ↦ r.methodValue name method) IsPlain := by
  unfold Evaluator.methodValue
  split
  · next hgetter =>
    have hparameters : method.declaration.parameters = none := Option.isNone_iff_eq_none.1 hgetter
    refine hA.invoke hm name ⟨hhere, ⟨hmethod, ?_⟩, by simp⟩
    simp [Function.arity, hparameters]
  · next hgetter =>
    have hparameters : method.declaration.parameters.isSome := by
      simpa [Function.isGetter, Option.isSome_iff_ne_none] using hgetter
    exact .onStore (hm.addClosure hparameters hmethod) ⟨trivial, rfl⟩

theorem bindFound (hm : m.memory.Sound o) (hhere : m.here < m.store.frames.size) (name : Token)
    (hv : v.Plain m.memory.store) {found : Option Closure}
    (hfound : ∀ c ∈ found, c.Bindable o m.memory) (isInitializer : Bool) :
    Meets A o m (fun r ↦ r.bindFound found name v isInitializer) IsPlain := by
  cases found with
  | none => exact .fault hm
  | some c =>
    refine .bind (.bindMethod hm (hfound c rfl) hv isInitializer) ?_
    intro o' m' bound leads hbound
    exact hA.methodValue leads.grows.sound (leads.here_lt_size hhere) name hbound.2

theorem fieldOrMethod (hm : m.memory.Sound o) (hhere : m.here < m.store.frames.size)
    (name : Token) (hv : v.Plain m.memory.store) {field : Option Value}
    (hfield : ∀ w ∈ field, w.Plain m.memory.store)
    {method : Option Closure} (hmethod : ∀ c ∈ method, c.Bindable o m.memory)
    (isInitializer : Bool) :
    Meets A o m (fun r ↦ r.fieldOrMethod v name field method isInitializer) IsPlain := by
  cases field with
  | some w => exact .fieldValue hm name (hfield w rfl)
  | none => exact hA.bindFound hm hhere name hv hmethod isInitializer

/-- **A property of a plain value is a plain value.** -/
theorem property (hm : m.memory.Sound o) (hhere : m.here < m.store.frames.size) (name : Token)
    (hv : v.Plain m.memory.store) :
    Meets A o m (fun r ↦ r.property v name) IsPlain := by
  cases v with
  | object id =>
    have hid : m.store.objects[id]? = some _ := Array.getElem?_eq_getElem hv.1
    refine .read (.require hid (.read (hA.fieldOrMethod hm hhere name hv ?_ ?_ _)))
    · intro w hw
      exact hm.items (.element w) (.inr (.inl ⟨_, Array.mem_of_getElem? hid, _, hw⟩))
    · intro c hc
      exact hm.items (.method c) (Store.has_of_findMethod hc)
  | classValue id =>
    obtain ⟨line, hline⟩ := hv.1
    have hid : m.store.classes[id]? = some _ := Array.getElem?_eq_getElem hline.lt_size
    refine .read (.require hid (.read (hA.fieldOrMethod hm hhere name hv ?_ ?_ _)))
    · intro w hw
      exact hm.items (.element w) (.inr (.inr ⟨_, Array.mem_of_getElem? hid, _, hw⟩))
    · intro c hc
      exact hm.items (.method c) (Store.has_of_findClassMethod hc)
  | _ => exact .fault hm

/-- **A store through aliases keeps memory in order.** -/
theorem storeWithin (hm : m.memory.Sound o) (hops : Nat) {name : Token} (hname : name.Ordinary)
    (hv : v.Plain m.memory.store) :
    Meets A o m (fun r ↦ r.storeWithin hops name v) fun _ _ _ ↦ True := by
  induction hops generalizing o m name with
  | zero =>
    unfold Evaluator.storeWithin
    refine .bind (.lookup hm name) fun o' m' w leads hw ↦ ?_
    cases w with
    | reference id =>
      have hid : m'.store.references[id]? = some _ := Array.getElem?_eq_getElem hw
      exact .read (.require hid (.fault leads.grows.sound))
    | _ => exact .overwrite leads.grows.sound hname (hv.later leads.grows.later)
  | succ hops ih =>
    unfold Evaluator.storeWithin
    refine .bind (.lookup hm name) fun o' m' w leads hw ↦ ?_
    have hm' := leads.grows.sound
    have hv' := hv.later leads.grows.later
    cases w with
    | reference id =>
      have hid : m'.store.references[id]? = some _ := Array.getElem?_eq_getElem hw
      have hfollow := hm'.items (.reference _) (Array.mem_of_getElem? hid)
      -- The store goes on in the frame where the alias was made, and where its target can be run.
      refine .read (.require hid (.inFrame ?_))
      obtain ⟨hplace, hrunnable⟩ := hfollow
      split
      · next target htarget =>
        rw [htarget] at hrunnable
        have hordinary := hrunnable.ordinary (t := target) (by simp [Node.uses, Expr.uses])
          hrunnable.stratified
        exact ih (by exact hm') hordinary (by exact hv')
      · next object field htarget =>
        rw [htarget] at hrunnable
        have hobject := hrunnable.part (n := .expr object) (by simp [Expr.parts])
        refine .bind (hA.evaluate (by exact hm') hobject) fun o₁ m₁ receiver leads₁ _ ↦ ?_
        exact .setProperty leads₁.grows.sound field (hv'.later leads₁.grows.later)
      · next object bracket index htarget =>
        rw [htarget] at hrunnable
        have hobject := hrunnable.part (n := .expr object) (by simp [Expr.parts])
        have hindex := hrunnable.part (n := .expr index) (by simp [Expr.parts])
        refine .bind (hA.evaluate (by exact hm') hobject) fun o₁ m₁ array leads₁ harray ↦ ?_
        refine .bind (hA.evaluate leads₁.grows.sound (hindex.leads leads₁))
          fun o₂ m₂ i leads₂ _ ↦ ?_
        exact .setElement leads₂.grows.sound bracket (harray.later leads₂.grows.later)
          ((hv'.later leads₁.grows.later).later leads₂.grows.later)
      · next hvariable hget hsubscript =>
        -- An alias was made of a place, so its target has no other form.
        exfalso
        revert hplace
        cases htarget : (m'.store.references[id]).target <;> simp_all [Expr.isPlace]
    | _ => exact .overwrite hm' hname hv'

end Family.Sound

end AliasScript
