import AliasScript.Evaluation.Statement
import AliasScript.Proofs.Evaluation.Place

/-!
# Declarations

A declaration binds its name in the current frame, whose scope declares it (`Stands.bindingSound`).
A variable may take an alias for its value; the class of a class declaration is no alias. The
methods of a class are made in the frame of its superclass, or in the current one, and are run
inside the frame of a receiver, which is made when they are bound.
-/

namespace AliasScript

/-! ### The frame of a declaration -/

namespace Stands

variable {o o' : Labels} {μ : Memory} {m m' : Machine} {f : FrameId} {v : Visit} {c : Context}
  {s : Stmt} {name : Token}

theorem leads (h : Stands o m.memory m.here v) (hleads : Leads o m o' m') :
    Stands o' m'.memory m'.here v :=
  hleads.here ▸ h.later hleads.grows.later hleads.grows.labels

theorem stratified (h : Stands o μ f ⟨c, .stmt s⟩) : s.Stratified :=
  Runnable.stratified ⟨c, h⟩

/-- A statement that has declared what it declares, if anything, is done. -/
theorem flow_normal (h : Stands o μ f ⟨c, .stmt s⟩) (hcompleted : s.Completed f μ) :
    Flow.normal.Ends c s f o μ := by
  refine ⟨?_, fun _ ↦ hcompleted⟩
  show Chain o μ.frames c.scopes (Visit.mk c (.stmt s)).finish.scopes f
  rw [Stmt.scopes_finish s h.stratified c]
  cases hdeclared : s.declared? with
  | none => exact h.chain
  | some name => exact h.chain.declare name (hcompleted.bound hdeclared)

theorem ordinary_declared (h : Stands o μ f ⟨c, .stmt s⟩) (hs : s.declared? = some name) :
    name.Ordinary := by
  have hstratified := h.stratified
  obtain ⟨program, hknows, hv⟩ := h.visits
  obtain ⟨index, source, addresses, haccepted⟩ := hknows.accepted
  exact haccepted.ordinary (hv.names_subset (Stmt.mem_names_of_declared hs))
    (hstratified.kind_declared hs)

/-- **A declaration may bind its name in the current frame**, to an alias if its initial value may
be one. -/
theorem bindingSound (h : Stands o μ f ⟨c, .stmt s⟩) (hμ : μ.Sound o)
    (hs : s.declared? = some name) {v : Value} (hlive : v.Live μ.store)
    (halias : v.isReference = true → s.DeclaresAlias name.lexeme) :
    BindingSound o μ f name.lexeme v := by
  have hsize := h.lt_size hμ
  obtain ⟨program, hknows, hv⟩ := h.visits
  obtain ⟨index, source, addresses, haccepted⟩ := hknows.accepted
  have hlawful := haccepted.lawful hv
  have hdeclaration : s.isDeclaration = true :=
    Bool.of_not_eq_false fun hnot ↦ absurd ((Stmt.declared?_eq_none hnot).symm.trans hs) nofun
  have hstands := hlawful.stands s rfl hdeclaration
  have hfits := hlawful.context.fits
  have hchain := h.chain
  obtain ⟨k, scopes, start⟩ := c
  cases scopes with
  | nil =>
    -- No scope is open, so this is the outermost frame, and the program itself declares the name.
    cases hnames : start.scopes with
    | cons => rw [hnames] at hchain; exact hchain.elim
    | nil =>
      rw [hnames] at hchain
      have hglobals : f = Store.globals := hchain
      subst hglobals
      refine ⟨hsize, hlive, ?_, fun href ↦ ?_⟩
      · rw [hμ.outermost]
        nofun
      · simp only [MayAlias, hμ.outermost]
        exact ⟨program, hknows, s, hstands, halias href⟩
  | cons innermost outer =>
    cases hnames : start.scopes with
    | nil => rw [hnames] at hchain; exact hchain.elim
    | cons seen names =>
      rw [hnames] at hchain hfits
      have hlabel : o f = some innermost.scope := hchain.2.1
      -- The scope has not seen the name yet, so it is none that the scope is entered with.
      have hnot : name.lexeme ∉ seen := haccepted.not_mem_of_declared hv hs hnames
      have hbound : innermost.scope.bound ⊆ seen := (List.forall₂_cons.1 hfits).1.1
      refine ⟨hsize, hlive, ?_, fun href ↦ ?_⟩
      · rw [hlabel]
        rintro _ ⟨⟩
        exact StandsIn.mem_declares hstands hs
      · simp only [MayAlias, hlabel]
        exact ⟨fun hmem ↦ hnot (hbound hmem), s, hstands, halias href⟩

end Stands

/-- A name that a frame binds is found there. -/
theorem Frames.find?_eq_self {fs : Frames} {f : FrameId} {x : String}
    (h : (valueIn fs f x).isSome) : find? fs f x = some f := by
  obtain ⟨v, hv⟩ := Option.isSome_iff_exists.1 h
  obtain ⟨n, hn⟩ := Nat.exists_eq_succ_of_ne_zero
    (Nat.ne_zero_of_lt (Frames.lt_size_of_valueIn hv))
  rw [find?, hn, findWithin, if_pos h]

namespace Meets

variable {A : Family} {o : Labels} {m : Machine} {c : Context} {s : Stmt} {name : Token}

/-- **A declaration binds its name.** -/
theorem declare (hm : m.memory.Sound o) (hstands : Stands o m.memory m.here ⟨c, .stmt s⟩)
    (hs : s.declared? = some name) {v : Value} (hlive : v.Live m.memory.store)
    (halias : v.isReference = true → s.DeclaresAlias name.lexeme) :
    Meets A o m (fun _ ↦ Run.define m.here name.lexeme v) fun _ μ _ ↦
      μ.frames.valueIn m.here name.lexeme = some v := by
  have hbinding := hstands.bindingSound hm hs hlive halias
  refine .changeStore (hm.define (hstands.ordinary_declared hs) hbinding) ?_
  show Frames.valueIn (m.memory.frames.define m.here name.lexeme v) m.here name.lexeme = some v
  rw [Frames.valueIn_define _ hbinding.size, if_pos ⟨rfl, rfl⟩]

end Meets

/-! ### Classes -/

section Classes

variable {A : Family} {o : Labels} {μ : Memory} {m : Machine} {f frame : FrameId} {c : Context}
  {s : Stmt} {name : Token} {superclass : Option Token} {methods classMethods : List Function}

/-- The innermost scope around the methods of a class is that of their receiver. -/
theorem Context.scopes_atParts_classDecl (c : Context)
    (hs : s = .classDecl name superclass methods classMethods) :
    (c.atParts s).scopes = ⟨.receiver s, none⟩ :: (c.atParts s).scopes.tail ∧
      (c.atParts s).start.scopes = ["this"] :: (c.atParts s).start.scopes.tail := by
  subst hs
  cases superclass <;> exact ⟨rfl, rfl⟩

/-- **A method can be bound to a receiver**, if its frame ends a chain for the scopes around the
receiver. -/
theorem Stands.bindable (hs : s = .classDecl name superclass methods classMethods)
    (h : Stands o μ f ⟨c, .stmt s⟩)
    (hchain : Chain o μ.frames (c.atParts s).scopes.tail (c.atParts s).start.scopes.tail frame)
    {declaration : Function} (hmem : declaration ∈ methods ++ classMethods) (b : Bool) :
    Closure.Bindable o μ ⟨declaration, frame, b⟩ := by
  have hfunctions : s.parts = (methods ++ classMethods).map .function := hs ▸ rfl
  obtain ⟨before, after, hparts⟩ :=
    List.append_of_mem (hfunctions ▸ List.mem_map_of_mem (f := Node.function) hmem)
  have hvisits : μ.Visits ⟨(c.atParts s).behind before, .function declaration⟩ :=
    h.visits.inside (Context.mem_inOrder.2 ⟨before, after, hparts, rfl⟩)
  obtain ⟨hscopes, hstart⟩ := c.scopes_atParts_classDecl hs
  -- Functions leave the scopes as they are, so every method is walked in the same ones.
  have hwalk : ((c.atParts s).walk before).scopes = (c.atParts s).start.scopes := by
    refine Context.scopes_walk _ fun n hn c ↦ ?_
    have hn' : n ∈ s.parts := by simp [hparts, hn]
    rw [hfunctions] at hn'
    obtain ⟨g, -, rfl⟩ := List.mem_map.1 hn'
    exact Visit.scopes_finish_function c g
  rw [Context.behind, hscopes] at hvisits
  exact ⟨_, s, _, _, _, hvisits, hwalk.trans hstart, hchain⟩

/-- **The name of a superclass can be looked up before the class is bound.** -/
theorem Stands.superclassName {superclass : Token}
    (hs : s = .classDecl name (some superclass) methods classMethods)
    (h : Stands o μ f ⟨c, .stmt s⟩) : Runnable o μ f (.expr (.variable superclass)) := by
  obtain ⟨program, hknows, hv, hlawful⟩ := h.visits.lawful
  refine ⟨c.atSuperclass s name superclass, ⟨program, hknows, .superclass hs hv⟩, ?_⟩
  show Chain _ _ (declaring s c.scopes) _ _
  rw [c.scopes_atSuperclass]
  exact h.chain.declaring (hs ▸ rfl) (hlawful.quiet s rfl)

/-- **A class can be made where it is declared**: the frame of its methods ends a chain for the
scopes around their receiver. -/
theorem Stands.addDeclared (hs : s = .classDecl name superclass methods classMethods)
    (h : Stands o μ f ⟨c, .stmt s⟩) (hμ : μ.Sound o)
    (hbound : (μ.frames.valueIn f name.lexeme).isSome) {found : Option ClassId}
    (hsome : found.isSome = superclass.isSome)
    (hfound : ∀ p ∈ found, (Value.classValue p).Live μ.store) :
    μ.Grows o (Memory.classLabels o μ.frames.size s found)
      (μ.withStore (μ.store.addDeclared f name.lexeme found methods classMethods).2) := by
  have hlater := Memory.Later.addDeclared μ f name.lexeme found methods classMethods
  have hlabels := Memory.agrees_classLabels o μ.frames.size s found
  have hchain := h.chain.declare name hbound
  refine hμ.addDeclared hs (h.lt_size hμ) hsome hfound rfl fun declaration hmem ↦
    (h.later hlater hlabels).bindable hs ?_ hmem false
  cases found with
  | none =>
    have hnone : superclass = none := by simpa using hsome.symm
    subst hnone hs
    exact hchain.later hlater hlabels
  | some p =>
    -- Only with a superclass there is one more scope around the receiver, and one more frame.
    obtain ⟨superclass, rfl⟩ := Option.isSome_iff_exists.1 hsome.symm
    have hsuper : Chain _ (μ.store.addFrame f [("super", .classValue p)]).2.frames
        (⟨.superclass s, none⟩ :: c.scopes) (["super"] :: _) _ :=
      Memory.chain_addFrame hchain (by simp [Bindings.get?])
    rw [← c.scopes_atSuperclass s name superclass, ← Resolution.scopes_use _ superclass] at hsuper
    subst hs
    exact hsuper

end Classes

namespace Family.Sound

variable {A : Family} (hA : A.Sound) {o : Labels} {m : Machine} {c : Context} {s : Stmt}
  {name : Token} {superclass : Option Token} {methods classMethods : List Function}

include hA

/-- The superclass of a class is a class that was declared. -/
theorem superclassOf (hs : s = .classDecl name superclass methods classMethods)
    (hm : m.memory.Sound o) (hstands : Stands o m.memory m.here ⟨c, .stmt s⟩) :
    Meets A o m (fun r ↦ r.superclassOf superclass) fun _ μ found ↦
      found.isSome = superclass.isSome ∧ ∀ id ∈ found, (Value.classValue id).Live μ.store := by
  cases superclass with
  | none => exact .pure hm ⟨rfl, nofun⟩
  | some superclass =>
    refine .bind (hA.evaluate hm (hstands.superclassName hs)) fun o' m' v leads hv ↦ ?_
    cases v with
    | classValue id =>
      refine .pure leads.grows.sound ⟨rfl, ?_⟩
      rintro _ ⟨⟩
      exact hv.1
    | _ => exact .fault leads.grows.sound

/-- **A class declaration binds the class.** -/
theorem declareClass (hs : s = .classDecl name superclass methods classMethods)
    (hm : m.memory.Sound o) (hstands : Stands o m.memory m.here ⟨c, .stmt s⟩) :
    Meets A o m (fun r ↦ r.declareClass name superclass methods classMethods) fun _ μ _ ↦
      s.Completed m.here μ := by
  have hdeclared : s.declared? = some name := hs ▸ rfl
  refine .bind (hA.superclassOf hs hm hstands) fun o₁ m₁ found leads₁ ⟨hsome, hfound⟩ ↦ ?_
  refine .read (.bind (.declare leads₁.grows.sound (hstands.leads leads₁) hdeclared trivial nofun)
    fun o₂ m₂ _ leads₂ hnil ↦ ?_)
  have leads := leads₁.trans leads₂
  have hstands₂ := hstands.leads leads
  rw [← leads₂.here] at hnil
  rw [← leads₂.here, ← leads.here]
  have hbound : (m₂.memory.frames.valueIn m₂.here name.lexeme).isSome :=
    Option.isSome_iff_exists.2 ⟨_, hnil⟩
  have hfound₂ : ∀ p ∈ found, (Value.classValue p).Live m₂.memory.store := fun p hp ↦
    (hfound p hp).later leads₂.grows.later
  have hgrows := hstands₂.addDeclared hs leads.grows.sound hbound hsome hfound₂
  obtain ⟨line, hline⟩ :=
    Store.line_addDeclared m₂.here found methods classMethods name hsome hfound₂
  -- The name is bound to nil while the class is made, so that the assignment behind it succeeds.
  refine .onStoreThen hgrows (.read ?_)
  have hfind := Frames.find?_eq_self (hgrows.later.bound _ _ hbound)
  split
  · next g hg =>
    cases hfind.symm.trans hg
    refine Meets.imp (.declare (by exact hgrows.sound)
      (by exact hstands₂.later hgrows.later hgrows.labels) hdeclared (by exact ⟨_, hline⟩) nofun) ?_
    intro o' μ' _ hgrows' hbound'
    subst hs
    exact ⟨_, _, line, hbound', hline.later hgrows'.later.classes⟩
  · next hnone => exact absurd (hfind.symm.trans hnone) nofun

end Family.Sound

end AliasScript
