import AliasScript.Proofs.Machine.Growth

/-!
# Actions that keep memory in order

`Meets A o m F Q` says of an action `F`, which uses an evaluator for what is nested inside: from the
state `m` it ends in a state that has come back to the current frame and to the number of active
calls, and whose memory has grown and is in order; if it ends with a value, the value satisfies `Q`,
and if it stops, it does not stop at a breach.

The statement is about all evaluators of a family `A` at once, and says that they all do the same
from `m` on. A family has the evaluator that runs programs in it, and others that watch the run.
Such an evaluator may depend on the memory at the end of the run, on how the frames are labelled
there, and on how many calls it is inside of, which is why a family admits evaluators by all of
these.

The rules below follow how actions are put together. Nothing here looks into the evaluator.
-/

namespace AliasScript

/-- What an action on the store comes to. -/
theorem Run.onStore_eq {α : Type} (f : Store → α × Store) (m : Machine) :
    onStore f m = .ok (f m.store).1 { m with store := (f m.store).2 } :=
  rfl

theorem Run.changeStore_eq (f : Store → Store) (m : Machine) :
    changeStore f m = .ok () { m with store := f m.store } :=
  rfl

/-- Evaluators that are to do the same inside of so many calls. Those that are admitted for some
memory are admitted for all that it has grown from. -/
structure Family where
  /-- How often a loop may go round. -/
  rounds : Nat
  admits : Labels → Memory → (calls : Nat) → Evaluator → Prop
  rounds_eq : ∀ {o μ calls r}, admits o μ calls r → r.rounds = rounds
  mono : ∀ {o o' μ μ' calls r}, μ.Grows o o' μ' → admits o' μ' calls r → admits o μ calls r

/-- The evaluators of a family, by the number of calls inside of one more call. -/
def Family.inside (A : Family) : Family where
  rounds := A.rounds
  admits o μ calls r := ∃ outside, calls = outside + 1 ∧ A.admits o μ outside r
  rounds_eq := fun ⟨_, _, hr⟩ ↦ A.rounds_eq hr
  mono hgrows := fun ⟨outside, hcalls, hr⟩ ↦ ⟨outside, hcalls, A.mono hgrows hr⟩

/-- The state has come back to the current frame and the number of active calls, and its memory has
grown and is in order. -/
structure Leads (o : Labels) (m : Machine) (o' : Labels) (m' : Machine) : Prop where
  here : m'.here = m.here
  depth : m'.depth = m.depth
  grows : m.memory.Grows o o' m'.memory

/-- Machines that lead to each other lead on. -/
theorem Leads.trans {o o' o'' : Labels} {m m' m'' : Machine} (h : Leads o m o' m')
    (h' : Leads o' m' o'' m'') : Leads o m o'' m'' :=
  ⟨h'.here.trans h.here, h'.depth.trans h.depth, h.grows.trans h'.grows⟩

/-- The current frame stays there. -/
theorem Leads.here_lt_size {o o' : Labels} {m m' : Machine} (h : Leads o m o' m')
    (hhere : m.here < m.store.frames.size) : m'.here < m'.store.frames.size :=
  h.here ▸ Nat.lt_of_lt_of_le hhere h.grows.later.frames

/-- **The action keeps memory in order and ends as it should, for all evaluators of the family
alike.** -/
inductive Meets {α : Type} (A : Family) (o : Labels) (m : Machine) (F : Evaluator → Run α)
    (Q : Labels → Memory → α → Prop) : Prop
  | value (o' : Labels) (m' : Machine) (a : α)
      (runs : ∀ r, A.admits o' m'.memory m.depth r → F r m = .ok a m')
      (leads : Leads o m o' m') (post : Q o' m'.memory a)
  | stop (o' : Labels) (m' : Machine) (e : Halt)
      (runs : ∀ r, A.admits o' m'.memory m.depth r → F r m = .error e m')
      (leads : Leads o m o' m') (stops : ∀ b, e ≠ .breach b)

namespace Meets

variable {α β : Type} {A : Family} {o : Labels} {m : Machine} {F F' : Evaluator → Run α}
  {G : Evaluator → α → Run β} {P P' : Labels → Memory → α → Prop} {Q : Labels → Memory → β → Prop}

/-! ### Values and stops -/

/-- A postcondition may be weakened, with the memory that it is said of. -/
theorem imp (h : Meets A o m F P)
    (hP : ∀ o' μ' a, m.memory.Grows o o' μ' → P o' μ' a → P' o' μ' a) : Meets A o m F P' := by
  cases h with
  | value o' m' a runs leads post => exact .value o' m' a runs leads (hP _ _ _ leads.grows post)
  | stop o' m' e runs leads stops => exact .stop o' m' e runs leads stops

/-- Actions that do the same from the state on meet the same. -/
theorem congr (h : Meets A o m F' P) (hF : ∀ r, F r m = F' r m) : Meets A o m F P := by
  cases h with
  | value o' m' a runs leads post =>
    exact .value o' m' a (fun r hr ↦ (hF r).trans (runs r hr)) leads post
  | stop o' m' e runs leads stops =>
    exact .stop o' m' e (fun r hr ↦ (hF r).trans (runs r hr)) leads stops

/-- The evaluators of a family let a loop go round equally often. -/
theorem rounds {F : Nat → Evaluator → Run α} (h : Meets A o m (F A.rounds) P) :
    Meets A o m (fun r ↦ F r.rounds r) P := by
  cases h with
  | value o' m' a runs leads post =>
    exact .value o' m' a (fun r hr ↦ (A.rounds_eq hr).symm ▸ runs r hr) leads post
  | stop o' m' e runs leads stops =>
    exact .stop o' m' e (fun r hr ↦ (A.rounds_eq hr).symm ▸ runs r hr) leads stops

/-- A result without an action needs its postcondition at once. -/
theorem pure {a : α} (hm : m.memory.Sound o) (h : P o m.memory a) :
    Meets A o m (fun _ ↦ pure a) P :=
  .value o m a (fun _ _ ↦ rfl) ⟨rfl, rfl, hm.refl⟩ h

/-- A fault has every postcondition, if the memory is sound. -/
theorem fault {token : Token} {cause : FaultCause} (hm : m.memory.Sound o) :
    Meets A o m (fun _ ↦ Run.fault token cause) P :=
  .stop o m (.fault ⟨token, cause⟩) (fun _ _ ↦ rfl) ⟨rfl, rfl, hm.refl⟩ nofun

/-- So has the end of the budget. -/
theorem exhausted (hm : m.memory.Sound o) : Meets A o m (fun _ ↦ Run.exhausted) P :=
  .stop o m .exhausted (fun _ _ ↦ rfl) ⟨rfl, rfl, hm.refl⟩ nofun

/-! ### One after the other -/

/-- **What one action leaves, the next can start from.** -/
theorem bind (h : Meets A o m F P)
    (hG : ∀ o' m' a, Leads o m o' m' → P o' m'.memory a → Meets A o' m' (fun r ↦ G r a) Q) :
    Meets A o m (fun r ↦ F r >>= G r) Q := by
  cases h with
  | stop o' m' e runs leads stops =>
    refine .stop o' m' e (fun r hr ↦ ?_) leads stops
    show EStateM.bind (F r) (G r) m = _
    rw [EStateM.bind, runs r hr]
  | value o' m' a runs leads post =>
    -- An evaluator that fits the memory behind both actions fits that behind the first.
    have hstep : ∀ o'' m'', Leads o' m' o'' m'' →
        ∀ r, A.admits o'' m''.memory m.depth r → (F r >>= G r) m = G r a m' := by
      intro o'' m'' leads' r hr
      have hruns := runs r (A.mono leads'.grows hr)
      show EStateM.bind (F r) (G r) m = _
      rw [EStateM.bind, hruns]
    cases hG o' m' a leads post with
    | value o'' m'' b runs' leads' post' =>
      exact .value o'' m'' b
        (fun r hr ↦ (hstep o'' m'' leads' r hr).trans (runs' r (leads.depth ▸ hr)))
        (leads.trans leads') post'
    | stop o'' m'' e runs' leads' stops =>
      exact .stop o'' m'' e
        (fun r hr ↦ (hstep o'' m'' leads' r hr).trans (runs' r (leads.depth ▸ hr)))
        (leads.trans leads') stops

/-- Reading something off the state does not change it. -/
theorem read {f : Machine → α} (h : Meets A o m (fun r ↦ G r (f m)) Q) :
    Meets A o m (fun r ↦ Run.read f >>= G r) Q :=
  h.congr fun _ ↦ rfl

/-- A value that is there is the one that is required. -/
theorem require {b : Breach} {x : Option α} {a : α} (hx : x = some a)
    (h : Meets A o m (fun r ↦ G r a) Q) : Meets A o m (fun r ↦ Run.require b x >>= G r) Q := by
  subst hx
  exact h.congr fun _ ↦ rfl

/-- What is known to be there is no breach. -/
theorem required {b : Breach} {x : Option α} {a : α} (hm : m.memory.Sound o) (hx : x = some a)
    (h : P o m.memory a) : Meets A o m (fun _ ↦ Run.require b x) P := by
  subst hx
  exact .pure hm h

/-- An action that goes on like another one from a later state. -/
theorem after {o' : Labels} {m' : Machine} (leads : Leads o m o' m')
    (hF : ∀ r, F r m = F' r m') (h : Meets A o' m' F' P) : Meets A o m F P := by
  cases h with
  | value o'' m'' a runs leads' post =>
    exact .value o'' m'' a (fun r hr ↦ (hF r).trans (runs r (leads.depth ▸ hr)))
      (leads.trans leads') post
  | stop o'' m'' e runs leads' stops =>
    exact .stop o'' m'' e (fun r hr ↦ (hF r).trans (runs r (leads.depth ▸ hr)))
      (leads.trans leads') stops

/-- An action whose end is known, and then another. -/
theorem thenFrom {o' : Labels} {m' : Machine} {a : α} (hF : ∀ r, F r m = .ok a m')
    (leads : Leads o m o' m') (h : Meets A o' m' (fun r ↦ G r a) Q) :
    Meets A o m (fun r ↦ F r >>= G r) Q := by
  refine .after leads (fun r ↦ ?_) h
  show EStateM.bind (F r) (G r) m = _
  rw [EStateM.bind, hF r]

/-! ### Actions in another frame, in a call, and under a note -/

/-- What is done in another frame is done to the same memory. -/
theorem inFrame {f : FrameId} (h : Meets A o { m with here := f } F P) :
    Meets A o m (fun r ↦ Run.inFrame f (F r)) P := by
  cases h with
  | value o' m' a runs leads post =>
    refine .value o' { m' with here := m.here } a (fun r hr ↦ ?_)
      ⟨rfl, leads.depth, leads.grows⟩ post
    simp only [Run.inFrame, runs r hr]
  | stop o' m' e runs leads stops =>
    refine .stop o' { m' with here := m.here } e (fun r hr ↦ ?_)
      ⟨rfl, leads.depth, leads.grows⟩ stops
    simp only [Run.inFrame, runs r hr]

/-- What is done inside of a call is done with one more active call. -/
theorem inCall (h : Meets A.inside o { m with depth := m.depth + 1 } F P) :
    Meets A o m (fun r ↦ Run.inCall (F r)) P := by
  cases h with
  | value o' m' a runs leads post =>
    have hdepth : m'.depth - 1 = m.depth := by rw [leads.depth, Nat.add_sub_cancel]
    refine .value o' { m' with depth := m'.depth - 1 } a (fun r hr ↦ ?_)
      ⟨leads.here, hdepth, leads.grows⟩ post
    simp only [Run.inCall, runs r ⟨m.depth, rfl, hr⟩]
  | stop o' m' e runs leads stops =>
    have hdepth : m'.depth - 1 = m.depth := by rw [leads.depth, Nat.add_sub_cancel]
    refine .stop o' { m' with depth := m'.depth - 1 } e (fun r hr ↦ ?_)
      ⟨leads.here, hdepth, leads.grows⟩ stops
    simp only [Run.inCall, runs r ⟨m.depth, rfl, hr⟩]

/-- The watch for faults changes no memory. -/
theorem notingFault (h : Meets A o m F P) : Meets A o m (fun r ↦ Run.notingFault (F r)) P := by
  cases h with
  | value o' m' a runs leads post =>
    refine .value o' m' a (fun r hr ↦ ?_) leads post
    simp only [Run.notingFault, runs r hr]
  | stop o' m' e runs leads stops =>
    cases e with
    | fault f =>
      refine .stop o' { m' with journal := m'.journal.note (.aborted f) } (.fault f)
        (fun r hr ↦ ?_) ⟨leads.here, leads.depth, leads.grows⟩ stops
      simp only [Run.notingFault, runs r hr]
    | breach b => exact absurd rfl (stops b)
    | exhausted =>
      refine .stop o' m' .exhausted (fun r hr ↦ ?_) leads stops
      simp only [Run.notingFault, runs r hr]

/-! ### Changes of the state -/

section Changes

variable {H : Evaluator → Unit → Run β}

/-- Notes are no part of memory. -/
theorem noteThen {e : Event} (hm : m.memory.Sound o)
    (h : Meets A o { m with journal := m.journal.note e } (fun r ↦ H r ()) Q) :
    Meets A o m (fun r ↦ Run.note e >>= H r) Q :=
  .thenFrom (fun _ ↦ rfl) ⟨rfl, rfl, hm.refl⟩ h

/-- The world is not part of the memory. -/
theorem onWorld {f : World → α × World} (hm : m.memory.Sound o)
    (h : P o m.memory (f m.world).1) : Meets A o m (fun _ ↦ Run.onWorld f) P :=
  .value o { m with world := (f m.world).2 } (f m.world).1 (fun _ _ ↦ rfl) ⟨rfl, rfl, hm.refl⟩ h

theorem changeWorld {f : World → World} (hm : m.memory.Sound o)
    {R : Labels → Memory → Unit → Prop} (h : R o m.memory ()) :
    Meets A o m (fun _ ↦ Run.changeWorld f) R :=
  .value o { m with world := f m.world } () (fun _ _ ↦ rfl) ⟨rfl, rfl, hm.refl⟩ h

/-- **An action on the store meets what holds of the memory that it makes**, if that has grown
soundly. -/
theorem onStore {f : Store → α × Store} {o' : Labels}
    (hgrows : m.memory.Grows o o' (m.memory.withStore (f m.store).2))
    (h : P o' (m.memory.withStore (f m.store).2) (f m.store).1) :
    Meets A o m (fun _ ↦ Run.onStore f) P :=
  .value o' { m with store := (f m.store).2 } (f m.store).1 (fun _ _ ↦ rfl) ⟨rfl, rfl, hgrows⟩ h

/-- The same with more behind it, which starts from the new store. -/
theorem onStoreThen {f : Store → α × Store} {o' : Labels}
    (hgrows : m.memory.Grows o o' (m.memory.withStore (f m.store).2))
    (h : Meets A o' { m with store := (f m.store).2 } (fun r ↦ G r (f m.store).1) Q) :
    Meets A o m (fun r ↦ Run.onStore f >>= G r) Q :=
  .thenFrom (fun _ ↦ rfl) ⟨rfl, rfl, hgrows⟩ h

/-- A change of the store likewise. -/
theorem changeStore {f : Store → Store} {o' : Labels}
    (hgrows : m.memory.Grows o o' (m.memory.withStore (f m.store)))
    {R : Labels → Memory → Unit → Prop} (h : R o' (m.memory.withStore (f m.store)) ()) :
    Meets A o m (fun _ ↦ Run.changeStore f) R :=
  .value o' { m with store := f m.store } () (fun _ _ ↦ rfl) ⟨rfl, rfl, hgrows⟩ h

/-- A change of the store with more behind it. -/
theorem changeStoreThen {f : Store → Store} {o' : Labels}
    (hgrows : m.memory.Grows o o' (m.memory.withStore (f m.store)))
    (h : Meets A o' { m with store := f m.store } (fun r ↦ H r ()) Q) :
    Meets A o m (fun r ↦ Run.changeStore f >>= H r) Q :=
  .thenFrom (fun _ ↦ rfl) ⟨rfl, rfl, hgrows⟩ h

end Changes

end Meets

end AliasScript
