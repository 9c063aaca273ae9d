import AliasScript.Evaluation.Expression
import AliasScript.Proofs.Evaluation.Place

/-!
# Expressions

Every form of expression keeps the promise of `Family.Sound`, if the evaluator for the expressions
inside keeps it (`Family.Sound.rawStep`). Which nodes the grammar builds excludes unknown operators
and aliases of what is no place; which nodes the walk over scopes accepts excludes a `this` or a
`super` that is not bound.
-/

namespace AliasScript

/-- **`this` is found**, whatever the evaluator is. -/
theorem Runnable.rawStep_this {o : Labels} {m : Machine} {keyword : Token}
    (h : Runnable o m.memory m.here (.expr (.this keyword))) :
    ∃ g v, m.store.frames.valueIn g "this" = some v ∧
      ∀ r : Evaluator, r.rawStep (.this keyword) m = .ok v m := by
  obtain ⟨c, hstands⟩ := h
  obtain ⟨hlexeme, d, g, v, hdistance, hancestor, hv⟩ := hstands.this
  have hbinder : Run.binder? keyword m = .ok (some g) m := by
    have hdistance : m.distances.find? keyword.index = some d := hdistance
    have hfound : m.store.frames.binderAt? m.here d keyword.lexeme = some g :=
      Option.filter_eq_some_iff.2 ⟨hancestor, hlexeme ▸ Option.isSome_iff_exists.2 ⟨v, hv⟩⟩
    simp only [Run.binder?, Run.read, hdistance, hfound]
  have hlookup : Run.lookup keyword m = .ok v m := by
    have hvalue : m.store.frames.valueIn g keyword.lexeme = some v := hlexeme ▸ hv
    simp only [Run.lookup, bind, EStateM.bind, hbinder, Run.read, Option.bind, hvalue]
    rfl
  refine ⟨g, v, hv, fun r ↦ ?_⟩
  simp only [Evaluator.rawStep, bind, EStateM.bind, hbinder, hlookup]

namespace Meets

variable {A : Family} {o : Labels} {m : Machine} {F : Evaluator → Run Value}

/-- A plain value will do as a raw one. -/
theorem raw (h : Meets A o m F IsPlain) (e : Expr) : Meets A o m F (IsRaw e) :=
  h.imp fun _ _ _ _ hv ↦ ⟨hv.1, fun href ↦ absurd (hv.2.symm.trans href) (by decide)⟩

/-- A `this` that can be run is there already. -/
theorem this (hm : m.memory.Sound o) {keyword : Token}
    (he : Runnable o m.memory m.here (.expr (.this keyword))) :
    Meets A o m (fun r ↦ r.rawStep (.this keyword)) IsPlain := by
  obtain ⟨g, v, hv, hruns⟩ := he.rawStep_this
  exact .value o m v (fun r _ ↦ hruns r) ⟨rfl, rfl, hm.refl⟩ (hm.plain_keyword (.inl rfl) hv)

end Meets

namespace Family.Sound

variable {A : Family} (hA : A.Sound) {o : Labels} {m : Machine}

include hA

/-- **`super` is found, and names a class.** -/
theorem superMethod (hm : m.memory.Sound o) {keyword method : Token}
    (he : Runnable o m.memory m.here (.expr (.super keyword method))) :
    Meets A o m (fun r ↦ r.superMethod keyword method) IsPlain := by
  have hhere := he.lt_size hm
  obtain ⟨c, hstands⟩ := he
  obtain ⟨-, d, declaration, v, id, p, line, hdistance, hinside⟩ := hstands.super hm
  obtain ⟨g, hthis, -, hv⟩ := hinside.receiver
  obtain ⟨g', hsuper, -, hw, -, -⟩ := hinside.superclass
  have hdistance : m.distances.find? keyword.index = some (d + 1) := hdistance
  have hclass : m.store.frames.getAt m.here (d + 1) "super" = some (.classValue p) :=
    Option.bind_eq_some_iff.2 ⟨g', hsuper, hw⟩
  have hreceiver : m.store.frames.getAt m.here d "this" = some v :=
    Option.bind_eq_some_iff.2 ⟨g, hthis, hv⟩
  refine .read ?_
  simp only [hdistance]
  refine .read ?_
  simp only [hclass]
  refine .read (.require hreceiver (.read ?_))
  -- A method is found in the store, be it for an instance or for a class, and can be bound there.
  refine hA.bindFound hm hhere method (hm.plain_keyword (.inl rfl) hv) (fun c hc ↦ ?_) _
  refine hm.items (.method c) ?_
  split at hc
  · exact Store.has_of_findClassMethod hc
  · exact Store.has_of_findMethod hc

/-- **Every expression that can be run keeps memory in order and gives a live value**, and an alias
only if it is `&` or a variable. -/
theorem rawStep (hm : m.memory.Sound o) {e : Expr}
    (he : Runnable o m.memory m.here (.expr e)) :
    Meets A o m (fun r ↦ r.rawStep e) (IsRaw e) := by
  have hstratified := he.stratified
  have hhere := he.lt_size hm
  have hpart : ∀ {n}, .expr n ∈ e.parts → ∀ {o' m'}, Leads o m o' m' →
      Meets A o' m' (fun r ↦ r.evaluate n) IsPlain := fun hn _ _ leads ↦
    hA.evaluate leads.grows.sound ((he.part hn).leads leads)
  have hfirst : ∀ {n}, .expr n ∈ e.parts → Meets A o m (fun r ↦ r.evaluate n) IsPlain :=
    fun hn ↦ hA.evaluate hm (he.part hn)
  unfold Evaluator.rawStep
  cases e with
  | literal value =>
    refine .pure hm ?_
    cases value <;> exact ⟨trivial, nofun⟩
  | «variable» name => exact (Meets.lookup hm name).imp fun _ _ _ _ hv ↦ ⟨hv, fun _ ↦ rfl⟩
  | this keyword => exact (Meets.this hm he).raw _
  | super keyword method => exact (hA.superMethod hm he).raw _
  | array bracket elements =>
    refine .raw (.bind (hA.evaluateAll hm fun e he' ↦ he.part (by simp [Expr.parts, he'])) ?_) _
    intro o' m' vs leads hvs
    exact .newArray leads.grows.sound (by simpa using hvs)
  | grouping inner => exact (hfirst (by simp [Expr.parts])).raw _
  | function declaration =>
    have hbody := he.part (n := .function declaration) (by simp [Expr.parts])
    refine .read (.onStore (hm.addClosure hstratified.1 ⟨hbody, nofun⟩) ⟨trivial, nofun⟩)
  | unary operator operand =>
    refine .raw (.bind (hfirst (by simp [Expr.parts])) fun o' m' v leads _ ↦ ?_) _
    exact .unary leads.grows.sound hstratified.1
  | reference operator target =>
    have hplace : target.isPlace = true := hstratified.2.2
    have htarget := he.part (n := .expr target) (by simp [Expr.parts])
    simp only [hplace, if_true]
    refine .read (.onStore (hm.addReference ⟨hplace, htarget⟩) ⟨?_, fun _ ↦ rfl⟩)
    simp [Value.Live, Store.addReference]
  | binary left operator right =>
    obtain ⟨rank, hrank, -⟩ := hstratified
    refine .raw (.bind (hfirst (n := left) (by simp [Expr.parts])) fun o₁ m₁ v leads₁ hv ↦ ?_) _
    refine .bind (hpart (n := right) (by simp [Expr.parts]) leads₁) fun o₂ m₂ w leads₂ hw ↦ ?_
    exact .binary leads₂.grows.sound hrank (hv.later leads₂.grows.later) hw
  | logical left operator right =>
    refine .raw (.bind (hfirst (n := left) (by simp [Expr.parts])) fun o₁ m₁ v leads₁ hv ↦ ?_) _
    split
    · exact .pure leads₁.grows.sound hv
    · exact hpart (by simp [Expr.parts]) leads₁
  | ternary condition question whenTrue whenFalse =>
    refine .raw (.bind (hfirst (n := condition) (by simp [Expr.parts]))
      fun o₁ m₁ v leads₁ _ ↦ ?_) _
    split <;> exact hpart (by simp [Expr.parts]) leads₁
  | assign name value =>
    have hname := he.ordinary (t := name) (by simp [Node.uses, Expr.uses]) hstratified.1
    refine .raw (.bind (hfirst (n := value) (by simp [Expr.parts])) fun o₁ m₁ v leads₁ hv ↦ ?_) _
    refine .bind (hA.storeWithin leads₁.grows.sound maxHops hname hv) fun o₂ m₂ _ leads₂ _ ↦ ?_
    exact .pure leads₂.grows.sound (hv.later leads₂.grows.later)
  | call callee paren arguments =>
    refine .raw (.bind (hfirst (n := callee) (by simp [Expr.parts])) fun o₁ m₁ v leads₁ _ ↦ ?_) _
    refine .bind (hA.evaluateAll leads₁.grows.sound fun e he' ↦
      (he.part (by simp [Expr.parts, he'])).leads leads₁) fun o₂ m₂ vs leads₂ hvs ↦ ?_
    exact hA.call leads₂.grows.sound ((leads₁.trans leads₂).here_lt_size hhere) paren v hvs
  | get object name =>
    refine .raw (.bind (hfirst (n := object) (by simp [Expr.parts])) fun o₁ m₁ v leads₁ hv ↦ ?_) _
    exact hA.property leads₁.grows.sound (leads₁.here_lt_size hhere) name hv
  | set object name value =>
    refine .raw (.bind (hfirst (n := object) (by simp [Expr.parts])) fun o₁ m₁ v leads₁ hv ↦ ?_) _
    have hset : Meets A o₁ m₁ (fun r ↦ do
        let w ← r.evaluate value
        Evaluator.setProperty v name w
        return w) IsPlain := by
      refine .bind (hpart (n := value) (by simp [Expr.parts]) leads₁) fun o₂ m₂ w leads₂ hw ↦ ?_
      refine .bind (.setProperty leads₂.grows.sound name hw) fun o₃ m₃ _ leads₃ _ ↦ ?_
      exact .pure leads₃.grows.sound (hw.later leads₃.grows.later)
    cases v with
    | object id | classValue id => exact hset
    | _ => exact .fault leads₁.grows.sound
  | subscript object bracket index =>
    refine .raw (.bind (hfirst (n := object) (by simp [Expr.parts])) fun o₁ m₁ v leads₁ hv ↦ ?_) _
    refine .bind (hpart (n := index) (by simp [Expr.parts]) leads₁) fun o₂ m₂ i leads₂ _ ↦ ?_
    exact .element leads₂.grows.sound bracket (hv.later leads₂.grows.later)
  | setElement object bracket index value =>
    refine .raw (.bind (hfirst (n := object) (by simp [Expr.parts])) fun o₁ m₁ v leads₁ hv ↦ ?_) _
    refine .bind (hpart (n := index) (by simp [Expr.parts]) leads₁) fun o₂ m₂ i leads₂ _ ↦ ?_
    refine .bind (hpart (n := value) (by simp [Expr.parts]) (leads₁.trans leads₂))
      fun o₃ m₃ w leads₃ hw ↦ ?_
    have hv := (hv.later leads₂.grows.later).later leads₃.grows.later
    refine .bind (.setElement leads₃.grows.sound bracket hv hw) fun o₄ m₄ _ leads₄ _ ↦ ?_
    exact .pure leads₄.grows.sound (hw.later leads₄.grows.later)

end Family.Sound

end AliasScript
