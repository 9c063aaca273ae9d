import AliasScript.Evaluation
import AliasScript.Proofs.Evaluation.Statement

/-!
# Watching a run

A statement about every state that a run passes through is a statement about a run that is watched.
A `Watch` says which states it allows when the evaluator comes to a node or begins what is called,
and when it is done with it, and `watchedOf` is the evaluator that stops with a given halt as soon
as the watch finds something that it does not allow. If the watched run is the same as the run
itself, whatever the halt is, then the watch has found nothing.

A watched evaluator knows how many calls it is inside of, since it is made anew for what is called.
The watch may ask how that number fits the state, and it may look ahead: it may go by the memory
that the run ends with, and by how the frames are labelled there. `Watch.Warranted` says that what a
watch asks for follows from what is known of everything that can be run; the evaluators on a budget,
watched and not, then are a sound family (`sound_familyOf`), so a run and a watched run are the
same.
`Watch.Justified` says so of a watch that goes by the labels only.
-/

namespace AliasScript

/-! ### Watched evaluators -/

/-- What the evaluator comes to. -/
inductive Activity where
  | node (n : Node)
  /-- Something that is called, inside of the call. -/
  | call (callee : Callee) (arguments : List Value)

/-- How an activity ended. -/
inductive Ending where
  | value (v : Value)
  | flow (f : Flow)
  | halt (e : Halt)

/-- What is asked of the states in which the evaluator begins an activity and is done with it,
inside of so many calls. -/
structure Watch where
  enters : (calls : Nat) → Activity → Machine → Prop
  /-- The activity, the state before it, how it ended, and the state behind it. -/
  leaves : (calls : Nat) → Activity → Machine → Ending → Machine → Prop

open Classical in
/-- Acts, and stops with a halt if the watch does not allow the state before or behind it. -/
noncomputable def Watch.around {α : Type} (w : Watch) (h : Halt) (calls : Nat) (activity : Activity)
    (ending : α → Ending) (act : Run α) : Run α := fun m ↦
  if w.enters calls activity m then
    match act m with
    | .ok a m' => if w.leaves calls activity m (ending a) m' then .ok a m' else .error h m'
    | .error e m' => if w.leaves calls activity m (.halt e) m' then .error e m' else .error h m'
  else .error h m

/-- The evaluator with a budget inside of some calls, under a watch. -/
noncomputable def watchedOf (w : Watch) (h : Halt) : (budget calls : Nat) → Evaluator
  | 0, calls => {
    rounds := 0
    raw := fun e ↦ w.around h calls (.node (.expr e)) .value Run.exhausted
    execute := fun s ↦ w.around h calls (.node (.stmt s)) .flow Run.exhausted
    apply := fun _ callee arguments ↦
      w.around h (calls + 1) (.call callee arguments) .value Run.exhausted }
  | n + 1, calls => {
    rounds := n + 1
    raw := fun e ↦
      w.around h calls (.node (.expr e)) .value ((watchedOf w h n calls).rawStep e)
    execute := fun s ↦
      w.around h calls (.node (.stmt s)) .flow ((watchedOf w h n calls).executeStep s)
    apply := fun paren callee arguments ↦
      w.around h (calls + 1) (.call callee arguments) .value
        ((watchedOf w h n (calls + 1)).applyStep paren callee arguments) }

@[simp] theorem rounds_watchedOf (w : Watch) (h : Halt) (n calls : Nat) :
    (watchedOf w h n calls).rounds = n := by
  cases n <;> rfl

namespace Watch

variable {α : Type} {w : Watch} {h : Halt} {calls : Nat} {activity : Activity} {ending : α → Ending}
  {act : Run α} {m m' : Machine}

theorem around_eq_ok {a : α} (hact : act m = .ok a m') (henters : w.enters calls activity m)
    (hleaves : w.leaves calls activity m (ending a) m') :
    w.around h calls activity ending act m = .ok a m' := by
  simp only [around, henters, hact, hleaves, if_true]

theorem around_eq_error {e : Halt} (hact : act m = .error e m')
    (henters : w.enters calls activity m) (hleaves : w.leaves calls activity m (.halt e) m') :
    w.around h calls activity ending act m = .error e m' := by
  simp only [around, henters, hact, hleaves, if_true]

end Watch

/-! ### Watches that find nothing -/

/-- What can be begun in a state. -/
def Activity.Ready (o : Labels) (m : Machine) : Activity → Prop
  | .node n => Runnable o m.memory m.here n
  | .call callee arguments => Applicable o m.memory m.here callee arguments

/-- What is known of how an activity ended, in a frame where it could be begun. -/
inductive Ending.Sound (o : Labels) (μ : Memory) (o' : Labels) (μ' : Memory) (f : FrameId) :
    Activity → Ending → Prop
  | value {e : Expr} {v : Value} : IsRaw e o' μ' v →
      Ending.Sound o μ o' μ' f (.node (.expr e)) (.value v)
  | flow {c : Context} {s : Stmt} {flow : Flow} : Stands o μ f ⟨c, .stmt s⟩ →
      flow.Ends c s f o' μ' → Ending.Sound o μ o' μ' f (.node (.stmt s)) (.flow flow)
  | result {callee : Callee} {arguments : List Value} {v : Value} : v.Plain μ'.store →
      Ending.Sound o μ o' μ' f (.call callee arguments) (.value v)
  | halt {activity : Activity} {e : Halt} : (∀ b, e ≠ .breach b) →
      Ending.Sound o μ o' μ' f activity (.halt e)

/-- **What the watch asks for holds of everything that can be run**, if the labelling that the watch
goes by agrees with the labels of the frames that are there. -/
structure Watch.Justified (w : Labels → Watch) : Prop where
  enters : ∀ {o lab m activity}, m.memory.Sound o → activity.Ready o m → m.depth ≤ maxDepth →
    o.Agrees lab m.store.frames.size → (w lab).enters m.depth activity m
  leaves : ∀ {o o' lab m m' activity ending}, m.memory.Sound o → activity.Ready o m →
    Leads o m o' m' → ending.Sound o m.memory o' m'.memory m.here activity →
    o'.Agrees lab m'.store.frames.size → (w lab).leaves m.depth activity m ending m'

/-- **What the watch asks for holds of everything that can be run**, if memory will grow into that
which the watch goes by. -/
structure Watch.Warranted (w : Labels → Memory → Watch) : Prop where
  enters : ∀ {o lab ν m activity}, m.memory.Sound o → activity.Ready o m → m.depth ≤ maxDepth →
    m.memory.Grows o lab ν → (w lab ν).enters m.depth activity m
  leaves : ∀ {o o' lab ν m m' activity ending}, m.memory.Sound o → activity.Ready o m →
    Leads o m o' m' → ending.Sound o m.memory o' m'.memory m.here activity →
    m'.memory.Grows o' lab ν → (w lab ν).leaves m.depth activity m ending m'

theorem Watch.Justified.warranted {w : Labels → Watch} (h : Justified w) :
    Warranted fun lab _ ↦ w lab where
  enters hm hready hdepth hgrows := h.enters hm hready hdepth hgrows.labels
  leaves hm hready hleads hending hgrows := h.leaves hm hready hleads hending hgrows.labels

/-- A watch that asks for nothing. -/
def Watch.blind : Watch :=
  ⟨fun _ _ _ ↦ True, fun _ _ _ _ _ ↦ True⟩

theorem Watch.warranted_blind : Warranted fun _ _ ↦ blind :=
  ⟨fun _ _ _ _ ↦ trivial, fun _ _ _ _ _ ↦ trivial⟩

/-- The evaluator with a budget, and the same under watches that go by the memory at the end. -/
def familyOf (w : Labels → Memory → Watch) (n : Nat) : Family where
  rounds := n
  admits o μ calls r :=
    r = evaluatorOf n ∨
      ∃ lab ν h, μ.Grows o lab ν ∧ calls ≤ maxDepth ∧ r = watchedOf (w lab ν) h n calls
  rounds_eq hr := by
    rcases hr with rfl | ⟨lab, ν, h, -, -, rfl⟩
    · rfl
    · exact rounds_watchedOf (w lab ν) h n _
  mono hgrows hr := by
    rcases hr with rfl | ⟨lab, ν, h, hν, hcalls, rfl⟩
    · exact .inl rfl
    · exact .inr ⟨lab, ν, h, hgrows.trans hν, hcalls, rfl⟩

section Families

variable {w : Labels → Memory → Watch} (hw : Watch.Warranted w) {α : Type} {A : Family} {n k : Nat}
  {o : Labels} {m : Machine} {activity : Activity} {ending : α → Ending} {F G : Evaluator → Run α}
  {P : Labels → Memory → α → Prop}

include hw

/-- What the evaluators on one budget all do, others do with or without a watch around it. -/
theorem Meets.around (hm : m.memory.Sound o) (hready : activity.Ready o m)
    (hG : ∀ {o' μ r}, A.admits o' μ m.depth r →
      G r = F (evaluatorOf k) ∨
      ∃ lab ν h, μ.Grows o' lab ν ∧ m.depth ≤ maxDepth ∧
        G r = (w lab ν).around h m.depth activity ending (F (watchedOf (w lab ν) h k m.depth)))
    (hending : ∀ o' μ' a, P o' μ' a → (ending a).Sound o m.memory o' μ' m.here activity)
    (h : Meets (familyOf w k) o m F P) : Meets A o m G P := by
  cases h with
  | value o' m' a runs leads post =>
    refine .value o' m' a (fun r hr ↦ ?_) leads post
    rcases hG hr with heq | ⟨lab, ν, h, hν, hdepth, heq⟩ <;> rw [heq]
    · exact runs _ (.inl rfl)
    -- The memory that the watch goes by has grown from that behind the activity, so from the first.
    · exact Watch.around_eq_ok (runs _ (.inr ⟨lab, ν, h, hν, hdepth, rfl⟩))
        (hw.enters hm hready hdepth (leads.grows.trans hν))
        (hw.leaves hm hready leads (hending _ _ _ post) hν)
  | stop o' m' e runs leads stops =>
    refine .stop o' m' e (fun r hr ↦ ?_) leads stops
    rcases hG hr with heq | ⟨lab, ν, h, hν, hdepth, heq⟩ <;> rw [heq]
    · exact runs _ (.inl rfl)
    · exact Watch.around_eq_error (runs _ (.inr ⟨lab, ν, h, hν, hdepth, rfl⟩))
        (hw.enters hm hready hdepth (leads.grows.trans hν))
        (hw.leaves hm hready leads (.halt stops) hν)

/-- A node is run with or without a watch around it. -/
theorem Meets.watchedNode {node : Node} (hm : m.memory.Sound o)
    (hnode : Runnable o m.memory m.here node) (hplain : G (evaluatorOf n) = F (evaluatorOf k))
    (hwatched : ∀ w h calls, G (watchedOf w h n calls) =
      w.around h calls (.node node) ending (F (watchedOf w h k calls)))
    (hending : ∀ o' μ' a, P o' μ' a → (ending a).Sound o m.memory o' μ' m.here (.node node))
    (h : Meets (familyOf w k) o m F P) : Meets (familyOf w n) o m G P := by
  have hready : (Activity.node node).Ready o m := hnode
  refine .around hw hm hready ?_ hending h
  rintro o' μ r (rfl | ⟨lab, ν, h, hν, hdepth, rfl⟩)
  · exact .inl hplain
  · exact .inr ⟨lab, ν, h, hν, hdepth, hwatched _ _ _⟩

/-- What is called is run with or without a watch around it, inside of one more call. -/
theorem Meets.watchedCall {callee : Callee} {arguments : List Value} {G F : Evaluator → Run Value}
    (hm : m.memory.Sound o) (happlicable : Applicable o m.memory m.here callee arguments)
    (hdepth : m.depth < maxDepth) (hplain : G (evaluatorOf n) = F (evaluatorOf k))
    (hwatched : ∀ w h calls, G (watchedOf w h n calls) =
      w.around h (calls + 1) (.call callee arguments) .value (F (watchedOf w h k (calls + 1))))
    (h : Meets (familyOf w k) o { m with depth := m.depth + 1 } F IsPlain) :
    Meets (familyOf w n) o m (fun r ↦ Run.inCall (G r)) IsPlain := by
  have hready : (Activity.call callee arguments).Ready o { m with depth := m.depth + 1 } :=
    happlicable
  refine .inCall (.around hw (by exact hm) hready ?_ (fun _ _ _ hv ↦ .result hv) h)
  -- What is called is run by the evaluator for one more call, which is made anew for it.
  rintro o' μ r ⟨outside, hcalls, rfl | ⟨lab, ν, h, hν, -, rfl⟩⟩
  · exact .inl hplain
  · cases hcalls
    exact .inr ⟨lab, ν, h, hν, hdepth, hwatched _ _ _⟩

/-- **The evaluators on a budget, watched and not, are a sound family.** -/
theorem sound_familyOf (n : Nat) : (familyOf w n).Sound := by
  induction n with
  | zero =>
    constructor
    · intro o m e hm he
      exact .watchedNode hw hm he (k := 0) rfl (fun _ _ _ ↦ rfl) (fun _ _ _ hv ↦ .value hv)
        (.exhausted hm)
    · intro o m c s hm hstands
      exact .watchedNode hw hm ⟨c, hstands⟩ (k := 0) rfl (fun _ _ _ ↦ rfl)
        (fun _ _ _ hflow ↦ .flow hstands hflow) (.exhausted hm)
    · intro o m paren callee arguments hm happlicable hdepth
      exact .watchedCall hw hm happlicable hdepth (k := 0) rfl (fun _ _ _ ↦ rfl)
        (.exhausted (by exact hm))
  | succ n ih =>
    constructor
    · intro o m e hm he
      exact .watchedNode hw hm he rfl (fun _ _ _ ↦ rfl) (fun _ _ _ hv ↦ .value hv)
        (ih.rawStep hm he)
    · intro o m c s hm hstands
      exact .watchedNode hw hm ⟨c, hstands⟩ rfl (fun _ _ _ ↦ rfl)
        (fun _ _ _ hflow ↦ .flow hstands hflow) (ih.executeStep hm hstands)
    · intro o m paren callee arguments hm happlicable hdepth
      exact .watchedCall hw hm happlicable hdepth rfl (fun _ _ _ ↦ rfl)
        (ih.applyStep (by exact hm) paren (by exact happlicable))

omit hw in
/-- What is known of all evaluators of the family is known of the one that runs programs. -/
theorem Meets.of_ok (h : Meets (familyOf w n) o m F P) {a : α} {m' : Machine}
    (hrun : F (evaluatorOf n) m = .ok a m') : ∃ o', Leads o m o' m' ∧ P o' m'.memory a := by
  cases h with
  | value o' m'' b runs leads post =>
    cases hrun.symm.trans (runs _ (.inl rfl))
    exact ⟨o', leads, post⟩
  | stop o' m'' e runs leads stops => exact absurd (hrun.symm.trans (runs _ (.inl rfl))) nofun

end Families

end AliasScript
