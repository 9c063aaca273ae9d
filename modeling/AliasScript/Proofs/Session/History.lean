import AliasScript.Proofs.Evaluation.Watch
import AliasScript.Session

/-!
# Histories of a machine

A machine runs sources one after the other, each on a budget and in the world as it is by then
(`Turn`). Between two turns it rests: its memory is in order, the current frame is the outermost
one, and no call is active (`Machine.Rests`). A machine that has run nothing yet rests
(`Machine.rests_initial`), it rests again after a turn, however the turn ended
(`Machine.sound_run`), and so it does after a whole history (`Machine.sound_after`). A watch that
goes by the memory at the end of the history, and by how the frames are labelled there, has found
nothing in any of the turns.
-/

namespace AliasScript

/-- A source to be run, with what is outside of the machine by then. -/
structure Turn where
  world : World
  journal : Journal
  budget : Nat
  source : String

namespace Machine

/-- The machine when a turn begins. -/
def ready (m : Machine) (t : Turn) : Machine :=
  { m with world := t.world, journal := t.journal }

/-- The machine after some turns. -/
def after (m : Machine) : List Turn → Machine
  | [] => m
  | t :: rest => (run t.budget (m.ready t) t.source).2.after rest

end Machine

/-- **The watch finds nothing in any of the turns**: they are run as if they were not watched. -/
def Watch.FindsNothing (w : Watch) (m : Machine) : List Turn → Prop
  | [] => True
  | t :: rest =>
    (∀ h, (watchedOf w h t.budget 0).runSource t.source (m.ready t) =
      (evaluatorOf t.budget).runSource t.source (m.ready t)) ∧
    w.FindsNothing (Machine.run t.budget (m.ready t) t.source).2 rest

/-! ### The start -/

theorem Builtin.name_ordinary (b : Builtin) : b.name ≠ "this" ∧ b.name ≠ "super" := by
  cases b <;> decide

namespace Memory

/-- The memory of a store before any source. -/
def ofStore (s : Store) : Memory :=
  ⟨s, #[], 0⟩

theorem sound_initial : (ofStore .initial).Sound fun _ ↦ none where
  outermost := rfl
  size := Nat.zero_lt_one
  root := rfl
  frames f hf hglobals := by
    have hzero : f = 0 := Nat.lt_one_iff.1 hf
    exact absurd hzero hglobals
  items i hi := by
    cases i with
    | binding f x v =>
      obtain ⟨frame, hframe, hv⟩ := Option.bind_eq_some_iff.1 hi
      have hmem := Array.mem_of_getElem? hframe
      simp only [ofStore, Store.initial, List.mem_toArray, List.mem_singleton] at hmem
      subst hmem
      cases hv
    | _ => simp [Store.Has, Store.metaclass?, Store.superclass?, ofStore, Store.initial] at hi
  fresh _ _ := by simp [ofStore, Distances.find?]

variable {o : Labels} {s : Store}

theorem Sound.bindGlobal (h : (ofStore s).Sound o) {x : String} (hx : x ≠ "this" ∧ x ≠ "super")
    {v : Value} (hv : v.Plain s) :
    (ofStore { s with frames := s.frames.define Store.globals x v }).Sound o :=
  (h.define hx (h.bindingSound_globals x hv)).sound

/-- The built-in functions and their names are made in good order. -/
theorem Sound.withBuiltins (h : (ofStore s).Sound o) : (ofStore s.withBuiltins).Sound o := by
  unfold Store.withBuiltins
  generalize Builtin.globals = builtins
  induction builtins generalizing s with
  | nil => exact h
  | cons b rest ih => exact ih (bindGlobal (h.addBuiltin b).sound b.name_ordinary ⟨trivial, rfl⟩)

theorem Sound.withArguments (h : (ofStore s).Sound o) (arguments : List String) :
    (ofStore (s.withArguments arguments)).Sound o := by
  have harguments : ∀ v ∈ (arguments.map Value.str).toArray, v.Plain s := by
    intro v hv
    obtain ⟨text, -, rfl⟩ := List.mem_map.1 (List.mem_toArray.1 hv)
    exact ⟨trivial, rfl⟩
  refine bindGlobal (h.addArray harguments).sound (by decide) ⟨?_, rfl⟩
  simp [Value.Live, ofStore, Store.addArray]

end Memory

namespace Machine

/-- The machine is between two turns. -/
structure Rests (o : Labels) (m : Machine) : Prop where
  memory : m.memory.Sound o
  here : m.here = Store.globals
  depth : m.depth = 0

/-- **A machine that has run nothing yet rests.** -/
theorem rests_initial (arguments : List String) (world : World) (tracing : Bool) :
    (initial arguments world tracing).Rests fun _ ↦ none :=
  ⟨Memory.sound_initial.withBuiltins.withArguments arguments, rfl, rfl⟩

theorem Rests.leads {o o' : Labels} {m m' : Machine} (h : m.Rests o) (hleads : Leads o m o' m') :
    m'.Rests o' :=
  ⟨hleads.grows.sound, hleads.here.trans h.here, hleads.depth.trans h.depth⟩

theorem Rests.ready {o : Labels} {m : Machine} (h : m.Rests o) (t : Turn) : (m.ready t).Rests o :=
  ⟨h.memory, h.here, h.depth⟩

/-! ### Turns -/

section Run

variable {m m' : Machine} {budget : Nat} {source : String}

theorem run_of_ok {a : Except (List Diagnostic) Unit}
    (h : (evaluatorOf budget).runSource source m = .ok a m') :
    (run budget m source).2 = m' ∧ ∀ b, (run budget m source).1 ≠ .breached b := by
  unfold run
  rw [h]
  cases a <;> exact ⟨rfl, nofun⟩

theorem run_of_error {e : Halt} (h : (evaluatorOf budget).runSource source m = .error e m')
    (he : ∀ b, e ≠ .breach b) :
    (run budget m source).2 = m' ∧ ∀ b, (run budget m source).1 ≠ .breached b := by
  unfold run
  rw [h]
  cases e with
  | breach b => exact absurd rfl (he b)
  | _ => exact ⟨rfl, nofun⟩

end Run

variable {m : Machine} {o : Labels}

section Warranted

variable {w : Labels → Memory → Watch} (hw : Watch.Warranted w)

include hw

/-- **A turn keeps memory in order and ends at no breach**, and a watch finds nothing in it. -/
theorem foreseen_run (hm : m.Rests o) (budget : Nat) (source : String) :
    (∀ b, (run budget m source).1 ≠ .breached b) ∧ ∃ o', Leads o m o' (run budget m source).2 ∧
      ∀ lab ν, (run budget m source).2.memory.Grows o' lab ν → ∀ h,
        (watchedOf (w lab ν) h budget 0).runSource source m =
          (evaluatorOf budget).runSource source m := by
  have hcalls : m.depth ≤ maxDepth := hm.depth ▸ Nat.zero_le maxDepth
  rw [← hm.depth]
  cases (sound_familyOf hw budget).runSource hm.memory hm.here source with
  | value o' m' a runs leads _ =>
    have hplain := runs _ (.inl rfl)
    obtain ⟨hend, hbreach⟩ := run_of_ok hplain
    rw [hend]
    exact ⟨hbreach, o', leads, fun lab ν hν h ↦
      (runs _ (.inr ⟨lab, ν, h, hν, hcalls, rfl⟩)).trans hplain.symm⟩
  | stop o' m' e runs leads stops =>
    have hplain := runs _ (.inl rfl)
    obtain ⟨hend, hbreach⟩ := run_of_error hplain stops
    rw [hend]
    exact ⟨hbreach, o', leads, fun lab ν hν h ↦
      (runs _ (.inr ⟨lab, ν, h, hν, hcalls, rfl⟩)).trans hplain.symm⟩

/-- **A machine rests after a history**, and a watch that goes by memory at its end, or later, finds
nothing in it. -/
theorem foreseen_after (hm : m.Rests o) (turns : List Turn) :
    ∃ o', Leads o m o' (m.after turns) ∧
      ∀ lab ν, (m.after turns).memory.Grows o' lab ν → (w lab ν).FindsNothing m turns := by
  induction turns generalizing m o with
  | nil => exact ⟨o, ⟨rfl, rfl, hm.memory.refl⟩, fun _ _ _ ↦ trivial⟩
  | cons t rest ih =>
    obtain ⟨-, o₁, leads₁, hunseen⟩ := foreseen_run hw (hm.ready t) t.budget t.source
    have leads : Leads o m o₁ _ := ⟨leads₁.here, leads₁.depth, leads₁.grows⟩
    obtain ⟨o₂, leads₂, hrest⟩ := ih (hm.leads leads)
    refine ⟨o₂, leads.trans leads₂, fun lab ν hν ↦ ⟨?_, hrest lab ν hν⟩⟩
    -- The memory at the end of the history has grown from that behind this turn.
    exact hunseen lab ν (leads₂.grows.trans hν)

end Warranted

section Justified

variable {w : Labels → Watch} (hw : Watch.Justified w)

include hw

/-- A turn ends at no breach, and a watch that goes by the labels at its end finds nothing in it. -/
theorem sound_run (hm : m.Rests o) (budget : Nat) (source : String) :
    (∀ b, (run budget m source).1 ≠ .breached b) ∧ ∃ o', Leads o m o' (run budget m source).2 ∧
      ∀ lab, o'.Agrees lab (run budget m source).2.store.frames.size → ∀ h,
        (watchedOf (w lab) h budget 0).runSource source m =
          (evaluatorOf budget).runSource source m := by
  obtain ⟨hbreach, o', leads, hunseen⟩ := foreseen_run hw.warranted hm budget source
  exact ⟨hbreach, o', leads, fun lab hlab ↦ hunseen lab _ (leads.grows.sound.relabel hlab)⟩

/-- A watch that goes by the labels at the end of a history finds nothing in it. -/
theorem sound_after (hm : m.Rests o) (turns : List Turn) :
    ∃ o', Leads o m o' (m.after turns) ∧
      ∀ lab, o'.Agrees lab (m.after turns).store.frames.size → (w lab).FindsNothing m turns := by
  obtain ⟨o', leads, hnothing⟩ := foreseen_after hw.warranted hm turns
  exact ⟨o', leads, fun lab hlab ↦ hnothing lab _ (leads.grows.sound.relabel hlab)⟩

end Justified

end Machine

end AliasScript
