import AliasScript.Proofs.Evaluation.Declaration
import AliasScript.Proofs.Evaluation.Expression
import AliasScript.Proofs.Evaluation.Module

/-!
# Statements

Every form of statement keeps the promise of `Family.Sound`, if the evaluator for what is inside
keeps it (`Family.Sound.executeStep`). A statement that ends normally leaves a frame for the
statements behind it: the names that the walk over scopes has seen then are bound, also the one that
the statement declares. A statement returns only inside a function, since the walk accepts no other
`return`.
-/

namespace AliasScript

/-! ### What is inside a statement -/

namespace Stands

variable {o : Labels} {μ : Memory} {f : FrameId} {c : Context} {s s' : Stmt} {e : Expr}

/-- The parts of a statement that opens no scope can be run where it can. -/
theorem part (h : Stands o μ f ⟨c, .stmt s⟩) (hs : c.atParts s = c) {before after : List Node}
    {n : Node} (hparts : s.parts = before ++ n :: after) :
    Stands o μ f ⟨c.behind before, n⟩ := by
  have hblock : ∀ body, s ≠ .block body := by
    rintro body rfl
    simpa [Context.atParts] using congrArg (fun c ↦ c.scopes.length) hs
  have hwalk : (c.walk before).scopes = c.start.scopes := by
    refine c.scopes_walk fun n' hn' c' ↦ ?_
    have hmem : n' ∈ s.parts := by simp [hparts, hn']
    cases n' with
    | expr e => exact Visit.scopes_finish_expr c' e
    | function g => exact Visit.scopes_finish_function c' g
    | stmt s' =>
      have hdeclares := h.stratified.branch hblock hmem
      rw [Stmt.scopes_finish s' (Stmt.Stratified.part h.stratified hmem),
        Stmt.declared?_eq_none hdeclares]
      rfl
  refine ⟨h.visits.inside (Context.mem_inOrder.2 ⟨before, after, hparts, ?_⟩), ?_⟩
  · show c.behind before = (c.atParts s).behind before
    rw [hs]
  · show Chain o μ.frames c.scopes (c.walk before).scopes f
    rw [hwalk]
    exact h.chain

theorem runnable (h : Stands o μ f ⟨c, .stmt s⟩) (hs : c.atParts s = c) (he : .expr e ∈ s.parts) :
    Runnable o μ f (.expr e) := by
  obtain ⟨before, after, hparts⟩ := List.append_of_mem he
  exact ⟨c.behind before, h.part hs hparts⟩

end Stands

namespace Family.Sound

variable {A : Family} (hA : A.Sound) {o o' : Labels} {m m' : Machine} {c : Context} {s s' : Stmt}

include hA

/-- A branch ends as the whole statement does. -/
theorem branch (hstands : Stands o m.memory m.here ⟨c, .stmt s⟩) (hs : c.atParts s = c)
    (hs' : .stmt s' ∈ s.parts) (hdeclared : s.declared? = none) (hleads : Leads o m o' m') :
    Meets A o' m' (fun r ↦ r.execute s') (Flow.Ends c s m.here) := by
  obtain ⟨before, after, hparts⟩ := List.append_of_mem hs'
  have hstands' := hstands.leads hleads
  refine (hA.execute hleads.grows.sound (hstands'.part hs hparts)).imp ?_
  intro o'' μ'' flow hgrows hflow
  cases flow with
  | normal =>
    rw [← hleads.here]
    exact (hstands'.later hgrows.later hgrows.labels).flow_normal
      (Stmt.completed_of_declared? hdeclared _ _)
  | returned v => exact ⟨hflow.1, nofun⟩

/-- **A loop keeps memory in order each time that it goes round.** -/
theorem loopWithin {keyword : Token} {condition : Expr} {body : Stmt}
    (hs : s = .loop keyword condition body) (hm : m.memory.Sound o)
    (hstands : Stands o m.memory m.here ⟨c, .stmt s⟩) (n : Nat) :
    Meets A o m (fun r ↦ Evaluator.loopWithin (r.evaluate condition) (r.execute body) n)
      (Flow.Ends c s m.here) := by
  have hentered : c.atParts s = c := hs ▸ rfl
  have hdeclared : s.declared? = none := hs ▸ rfl
  induction n generalizing o m with
  | zero => exact .exhausted hm
  | succ n ih =>
    have hcondition := hstands.runnable (e := condition) hentered (by simp [hs, Stmt.parts])
    refine .bind (hA.evaluate hm hcondition) fun o₁ m₁ v leads₁ _ ↦ ?_
    split
    · refine .bind (hA.branch hstands hentered (by simp [hs, Stmt.parts]) hdeclared leads₁)
        fun o₂ m₂ flow leads₂ hflow ↦ ?_
      have leads := leads₁.trans leads₂
      cases flow with
      | normal =>
        have hrest := ih leads.grows.sound (hstands.leads leads)
        rw [leads.here] at hrest
        exact hrest
      | returned v => exact .pure leads₂.grows.sound hflow
    · refine .pure leads₁.grows.sound ?_
      rw [← leads₁.here]
      exact (hstands.leads leads₁).flow_normal (Stmt.completed_of_declared? hdeclared _ _)

/-- **A block is run in a frame of its own.** -/
theorem block {body : List Stmt} (hm : m.memory.Sound o)
    (hstands : Stands o m.memory m.here ⟨c, .stmt (.block body)⟩) :
    Meets A o m (fun r ↦ do
      let frame ← Run.newFrame (← Run.read (·.here)) []
      Run.inFrame frame (r.executeAll body)) (Flow.Ends c (.block body) m.here) := by
  have hgrows : m.memory.Grows o (o.push m.store.frames.size (.block body))
      (m.memory.withStore (m.store.addFrame m.here []).2) :=
    hm.addFrame (.block body) nofun (hstands.lt_size hm) nofun nofun
  have hchain : Chain _ (m.store.addFrame m.here []).2.frames (c.atParts (.block body)).scopes
      (c.atParts (.block body)).start.scopes _ := Memory.chain_addFrame hstands.chain nofun
  have hbody : Meets A o m (fun r ↦ do
      let frame ← Run.newFrame (← Run.read (·.here)) []
      Run.inFrame frame (r.executeAll body))
      (Flow.Sound (c.atParts (.block body)) (body.map .stmt) m.store.frames.size) := by
    refine .read (.onStoreThen hgrows (.inFrame (hA.executeAll (by exact hgrows.sound) ?_
      (by exact hchain))))
    intro w hw
    exact (hstands.visits.inside hw).later hgrows.later
  refine hbody.imp fun o' μ' flow hgrows hflow ↦ ?_
  cases flow with
  | normal => exact (hstands.later hgrows.later hgrows.labels).flow_normal trivial
  | returned v => exact ⟨hflow, nofun⟩

/-- **A variable is bound to its initial value**, which may be an alias. -/
theorem declareVar {name : Token} {initial : Option Expr} (hs : s = .var name initial)
    (hm : m.memory.Sound o) (hstands : Stands o m.memory m.here ⟨c, .stmt s⟩) :
    Meets A o m (fun r ↦ do
      let v ← match initial with
        | some e => r.raw e
        | none => pure .nil
      Run.define (← Run.read (·.here)) name.lexeme v
      return .normal) (Flow.Ends c s m.here) := by
  have hdeclared : s.declared? = some name := hs ▸ rfl
  -- What is left to do once the initial value is there.
  have hbind : ∀ {o' m' v}, Leads o m o' m' → v.Live m'.memory.store →
      (v.isReference = true → s.DeclaresAlias name.lexeme) →
      Meets A o' m' (fun _ ↦ do
        Run.define (← Run.read (·.here)) name.lexeme v
        return .normal) (Flow.Ends c s m.here) := by
    intro o' m' v leads hlive halias
    have hstands' := hstands.leads leads
    refine .read (.bind (.declare leads.grows.sound hstands' hdeclared hlive halias) ?_)
    intro o'' m'' _ leads' hbound
    refine .pure leads'.grows.sound ?_
    rw [← leads.here]
    refine (hstands'.later leads'.grows.later leads'.grows.labels).flow_normal ?_
    subst hs
    exact Option.isSome_iff_exists.2 ⟨_, hbound⟩
  cases initial with
  | none => exact hbind ⟨rfl, rfl, hm.refl⟩ trivial nofun
  | some e =>
    obtain ⟨program, hknows, hv, hlawful⟩ := hstands.visits.lawful
    have hinitial : Runnable o m.memory m.here (.expr e) := by
      refine ⟨c.atParts s, hstands.visits.inside (Context.mem_inOrder.2 ⟨[], [], ?_, rfl⟩), ?_⟩
      · exact hs ▸ rfl
      · have hchain := hstands.chain.declaring hdeclared (hlawful.quiet s rfl)
        subst hs
        exact hchain
    refine .bind (hA.raw hm hinitial) fun o' m' v leads hv ↦ hbind leads hv.1 fun href ↦ ?_
    exact ⟨name, e, hs, rfl, hstands.ordinary_declared hdeclared, hv.2 href⟩

/-- **Every statement that can be run keeps memory in order**, leaves the frame to the statements
behind it, and returns only inside a function. -/
theorem executeStep (hm : m.memory.Sound o) (hstands : Stands o m.memory m.here ⟨c, .stmt s⟩) :
    Meets A o m (fun r ↦ r.executeStep s) (Flow.Ends c s m.here) := by
  have hnormal : ∀ {o' m'}, Leads o m o' m' → s.declared? = none →
      Meets A o' m' (fun _ ↦ return .normal) (Flow.Ends c s m.here) := by
    intro o' m' leads hdeclared
    refine .pure leads.grows.sound ?_
    rw [← leads.here]
    exact (hstands.leads leads).flow_normal (Stmt.completed_of_declared? hdeclared _ _)
  unfold Evaluator.executeStep
  cases s with
  | expression value =>
    have hvalue := hstands.runnable (e := value) rfl (by simp [Stmt.parts])
    exact .bind (hA.evaluate hm hvalue) fun o' m' _ leads _ ↦ hnormal leads rfl
  | block body => exact hA.block hm hstands
  | var name initial => exact hA.declareVar rfl hm hstands
  | ifElse keyword condition whenTrue whenFalse =>
    have hcondition := hstands.runnable (e := condition) rfl (by simp [Stmt.parts])
    refine .bind (hA.evaluate hm hcondition) fun o' m' v leads _ ↦ ?_
    split
    · exact hA.branch hstands rfl (by simp [Stmt.parts]) rfl leads
    · cases whenFalse with
      | none => exact hnormal leads rfl
      | some whenFalse => exact hA.branch hstands rfl (by simp [Stmt.parts]) rfl leads
  | loop keyword condition body =>
    exact .rounds (F := fun n r ↦ Evaluator.loopWithin (r.evaluate condition) (r.execute body) n)
      (hA.loopWithin rfl hm hstands A.rounds)
  | ret keyword value =>
    obtain ⟨program, hknows, hv⟩ := hstands.visits
    obtain ⟨index, source, addresses, haccepted⟩ := hknows.accepted
    have hfunction : c.surroundings.inFunction = true := haccepted.inFunction_of_ret hv
    cases value with
    | none => exact .pure hm ⟨⟨hfunction, trivial, rfl⟩, by rintro ⟨⟩⟩
    | some value =>
      have hentered : c.atParts (.ret keyword (some value)) = c := by
        simp [Context.atParts, hfunction]
      have hvalue := hstands.runnable (e := value) hentered (by simp [Stmt.parts])
      refine .bind (hA.evaluate hm hvalue) fun o' m' v leads hv ↦ ?_
      exact .pure leads.grows.sound ⟨⟨hfunction, hv⟩, by rintro ⟨⟩⟩
  | importModule keyword name =>
    have hname := hstands.runnable (e := name) rfl (by simp [Stmt.parts])
    refine .bind (hA.evaluate hm hname) fun o₁ m₁ v leads₁ _ ↦ ?_
    cases v with
    | str path =>
      refine .bind (hA.importPath leads₁.grows.sound keyword path) fun o₂ m₂ _ leads₂ _ ↦ ?_
      exact hnormal (leads₁.trans leads₂) rfl
    | _ => exact .fault leads₁.grows.sound
  | classDecl name superclass methods classMethods =>
    refine .bind (hA.declareClass rfl hm hstands) fun o' m' _ leads hcompleted ↦ ?_
    refine .pure leads.grows.sound ?_
    exact (hstands.later leads.grows.later leads.grows.labels).flow_normal hcompleted

end Family.Sound

end AliasScript
