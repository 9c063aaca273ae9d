import AliasScript.Proofs.Evaluation.Meets
import AliasScript.Proofs.Machine.Address

/-!
# What an evaluator promises

A family of evaluators is sound (`Family.Sound`) if it meets what is to be expected of every node
that can be run in the current frame: an expression gives a live value, and an alias only where the
form of the expression allows one; a statement that ends normally leaves the current frame with the
names that it declares, and only inside a function it returns. And a call of what can be called
gives a plain value, if there is room for one more call.

From this follows what is to be expected of the actions that are made of the evaluator: following
an alias and evaluating an expression give plain values, and statements are run one after the other
in the same frame.
-/

namespace AliasScript

/-! ### Nodes inside -/

namespace Runnable

variable {o o' : Labels} {μ : Memory} {m m' : Machine} {f : FrameId} {e : Expr} {n node : Node}

/-- **The parts of an expression can be run where it can.** -/
theorem part (h : Runnable o μ f (.expr e)) (hn : n ∈ e.parts) : Runnable o μ f n := by
  obtain ⟨c, hvisits, hchain⟩ := h
  obtain ⟨before, after, hparts⟩ := List.append_of_mem hn
  refine ⟨c.behind before, hvisits.inside (Context.mem_inOrder.2 ⟨before, after, hparts, rfl⟩), ?_⟩
  have hscopes : (c.walk before).scopes = c.start.scopes :=
    c.scopes_walk_parts (e := e) (hparts ▸ List.subset_append_left _ _)
  show Chain o μ.frames c.scopes (c.walk before).scopes f
  rw [hscopes]
  exact hchain

theorem leads (h : Runnable o m.memory m.here node) (hleads : Leads o m o' m') :
    Runnable o' m'.memory m'.here node :=
  hleads.here ▸ Runnable.later hleads.grows.later hleads.grows.labels h

end Runnable

/-! ### The promise -/

/-- What a sequence of statements leaves in the frame that it was executed in. -/
def Flow.Sound (c : Context) (nodes : List Node) (f : FrameId) (o : Labels) (μ : Memory) :
    Flow → Prop
  | .normal => Chain o μ.frames c.scopes (c.walk nodes).scopes f
  | .returned v => c.surroundings.inFunction = true ∧ v.Plain μ.store

/-- What a declaration leaves in the frame that it was executed in: its name is bound, and that of a
class to a class that the statement has declared. -/
def Stmt.Completed (s : Stmt) (f : FrameId) (μ : Memory) : Prop :=
  match s with
  | .var name _ => (μ.frames.valueIn f name.lexeme).isSome
  | .classDecl name _ _ _ => ∃ id frame line,
    μ.frames.valueIn f name.lexeme = some (.classValue id) ∧ μ.store.Line id (⟨s, frame⟩ :: line)
  | _ => True

/-- What a statement leaves: if it ends normally, it has declared what it declares. -/
def Flow.Ends (c : Context) (s : Stmt) (f : FrameId) (o : Labels) (μ : Memory) (flow : Flow) :
    Prop :=
  flow.Sound c [.stmt s] f o μ ∧ (flow = .normal → s.Completed f μ)

theorem Stmt.Completed.bound {s : Stmt} {f : FrameId} {μ : Memory} (h : s.Completed f μ)
    {name : Token} (hname : s.declared? = some name) : (μ.frames.valueIn f name.lexeme).isSome := by
  cases s with
  | var | classDecl =>
    cases hname
    first
    | exact h
    | obtain ⟨id, -, -, hid, -⟩ := h
      exact Option.isSome_iff_exists.2 ⟨_, hid⟩
  | _ => cases hname

theorem Stmt.completed_of_declared? {s : Stmt} (h : s.declared? = none) (f : FrameId) (μ : Memory) :
    s.Completed f μ := by
  cases s with
  | var | classDecl => cases h
  | _ => trivial

/-- The post-condition of a raw value. -/
abbrev IsRaw (e : Expr) (_ : Labels) (μ : Memory) (v : Value) : Prop :=
  v.Live μ.store ∧ (v.isReference = true → e.mayAlias = true)

/-- The post-condition of a plain value. -/
abbrev IsPlain (_ : Labels) (μ : Memory) (v : Value) : Prop :=
  v.Plain μ.store

/-- What can be called with so many arguments. -/
def Callee.Sound (o : Labels) (μ : Memory) (count : Nat) : Callee → Prop
  | .function closure => closure.Callable o μ ∧ closure.declaration.arity = count
  | .construct id c => μ.store.calleeArity (.construct id c) = count
  | .builtin b => b.arity = count

/-- What can be called with these arguments while the frame is the current one. -/
structure Applicable (o : Labels) (μ : Memory) (f : FrameId) (callee : Callee)
    (arguments : List Value) : Prop where
  here : f < μ.frames.size
  callee : callee.Sound o μ arguments.length
  arguments : ∀ v ∈ arguments, v.Plain μ.store

/-- **What every evaluator of the family does with what can be run.** -/
structure Family.Sound (A : Family) : Prop where
  raw : ∀ {o m e}, m.memory.Sound o → Runnable o m.memory m.here (.expr e) →
    Meets A o m (fun r ↦ r.raw e) (IsRaw e)
  execute : ∀ {o m c s}, m.memory.Sound o → Stands o m.memory m.here ⟨c, .stmt s⟩ →
    Meets A o m (fun r ↦ r.execute s) (Flow.Ends c s m.here)
  apply : ∀ {o m paren callee arguments}, m.memory.Sound o →
    Applicable o m.memory m.here callee arguments → m.depth < maxDepth →
    Meets A o m (fun r ↦ Run.inCall (r.apply paren callee arguments)) IsPlain

namespace Family.Sound

variable {A : Family} (hA : A.Sound) {o : Labels} {m : Machine}

include hA

/-! ### Aliases and expressions -/

/-- **Following an alias ends with a plain value.** -/
theorem followWithin (hm : m.memory.Sound o) (hops : Nat) {v : Value}
    (hv : v.Live m.memory.store) :
    Meets A o m (fun r ↦ r.followWithin hops v) IsPlain := by
  induction hops generalizing o m v with
  | zero =>
    cases v with
    | reference id =>
      have hid : m.store.references[id]? = some _ := Array.getElem?_eq_getElem hv
      simp only [Evaluator.followWithin]
      refine .read (.require hid ?_)
      exact .fault hm
    | _ => exact .pure hm ⟨hv, rfl⟩
  | succ hops ih =>
    cases v with
    | reference id =>
      have hid : m.store.references[id]? = some _ := Array.getElem?_eq_getElem hv
      have hfollow := hm.items (.reference _) (Array.mem_of_getElem? hid)
      simp only [Evaluator.followWithin]
      refine .read (.require hid (.bind (.inFrame (hA.raw hm hfollow.runnable)) ?_))
      intro o' m' v leads hv
      exact ih leads.grows.sound hv.1
    | _ => exact .pure hm ⟨hv, rfl⟩

/-- **Evaluating an expression gives a plain value.** -/
theorem evaluate (hm : m.memory.Sound o) {e : Expr}
    (he : Runnable o m.memory m.here (.expr e)) :
    Meets A o m (fun r ↦ r.evaluate e) IsPlain := by
  refine .bind (hA.raw hm he) fun o' m' v leads hv ↦ ?_
  exact hA.followWithin leads.grows.sound maxHops hv.1

theorem evaluateAll (hm : m.memory.Sound o) {es : List Expr}
    (hes : ∀ e ∈ es, Runnable o m.memory m.here (.expr e)) :
    Meets A o m (fun r ↦ r.evaluateAll es) fun _ μ vs ↦ ∀ v ∈ vs, v.Plain μ.store := by
  induction es generalizing o m with
  | nil => exact .pure hm (by simp)
  | cons e rest ih =>
    refine .bind (hA.evaluate hm (hes e (by simp))) fun o₁ m₁ v leads₁ hv ↦ ?_
    have hrest : ∀ e ∈ rest, Runnable o₁ m₁.memory m₁.here (.expr e) := fun e he ↦
      (hes e (by simp [he])).leads leads₁
    refine .bind (ih leads₁.grows.sound hrest) fun o₂ m₂ vs leads₂ hvs ↦ ?_
    refine .pure leads₂.grows.sound (List.forall_mem_cons.2 ⟨?_, hvs⟩)
    exact hv.later leads₂.grows.later

/-! ### Statements -/

/-- **Statements are executed one after the other in the frame of their scope.** -/
theorem executeAll (hm : m.memory.Sound o) {c : Context} {ss : List Stmt}
    (hvisits : ∀ w ∈ c.inOrder (ss.map .stmt), m.memory.Visits w)
    (hchain : Chain o m.memory.frames c.scopes c.start.scopes m.here) :
    Meets A o m (fun r ↦ r.executeAll ss) (Flow.Sound c (ss.map .stmt) m.here) := by
  induction ss generalizing o m c with
  | nil => exact .pure hm hchain
  | cons s rest ih =>
    have hstands : Stands o m.memory m.here ⟨c, .stmt s⟩ :=
      ⟨hvisits _ (by simp [Context.inOrder]), hchain⟩
    refine .bind (hA.execute hm hstands) fun o' m' flow leads hflow ↦ ?_
    cases flow with
    | returned v => exact .pure leads.grows.sound hflow.1
    | normal =>
      have hrest := ih (c := c.behind [.stmt s]) leads.grows.sound
        (fun w hw ↦ (hvisits w (by simp [Context.inOrder, hw])).later leads.grows.later)
        (leads.here ▸ hflow.1)
      rw [leads.here] at hrest
      exact hrest

end Family.Sound

end AliasScript
