import AliasScript.Proofs.Session.Lasting
import AliasScript.Proofs.Store.Trail

/-!
# Frames and classes are well-founded

Functions, methods, aliases and frames share frames with each other, and a class lives in the frame
that its methods were made in, so nothing of the store is a tree. What keeps every walk through it
finite is the order of creation: a frame is made inside of one that is there already, and a class
below one that is there already. `Machine.Grounded` says this of a state, together with what follows
for the ways outward from a frame and upward from a class.

Numbers are given in the order of creation, and memory only grows, so that a smaller number means an
earlier creation. That the evaluator never makes a frame inside of one that is not there is part of
what is known of memory in order: the current frame and the frames of all that can be run or bound
are ends of chains of frames.
-/

namespace AliasScript

/-- **Every frame that is held is there, frames and classes are younger than what they are inside of
and below of, and the ways outward and upward end.** -/
structure Machine.Grounded (m : Machine) : Prop where
  here : m.here < m.store.frames.size
  /-- Also a method that was bound to a receiver is a function. -/
  functions : ∀ c ∈ m.store.closures, c.frame < m.store.frames.size
  methods : ∀ k ∈ m.store.classes, ∀ x c, k.methods.get? x = some c →
    c.frame < m.store.frames.size
  references : ∀ r ∈ m.store.references, r.frame < m.store.frames.size
  enclosed : ∀ f < m.store.frames.size, f ≠ Store.globals →
    ∃ g < f, m.store.frames.parent? f = some g
  outermost : ∀ f < m.store.frames.size, m.store.frames.parent? f = none ↔ f = Store.globals
  superclass : ∀ id p, m.store.superclass? id = some p → p < id
  outward : ∀ f < m.store.frames.size, ∃ path, m.store.frames.Outward f path
  upward : ∀ id < m.store.classes.size, ∃ path, m.store.Upward id path

/-- Every state is grounded, a function that is called was made in a frame that is there, and all
that was there keeps its number. -/
def grounding : Watch where
  enters _ activity m := m.Grounded ∧
    ∀ c arguments, activity = .call (.function c) arguments → c.frame < m.store.frames.size
  leaves _ _ m _ m' := m'.Grounded ∧ m.memory.Later m'.memory

namespace Memory.Sound

variable {o : Labels} {μ : Memory}

/-- The frame around a frame is older. -/
theorem descends_parent? (h : μ.Sound o) : Descends μ.frames.parent? := by
  intro f g hg
  obtain ⟨frame, hframe, -⟩ := Option.bind_eq_some_iff.1 hg
  have hf : f < μ.frames.size := (Array.getElem?_eq_some_iff.1 hframe).1
  have hne : f ≠ Store.globals := by
    rintro rfl
    exact absurd (h.root.symm.trans hg) nofun
  obtain ⟨s, hs⟩ := h.frames f hf hne
  obtain ⟨g', hlt, hg'⟩ := hs.parent
  cases hg'.symm.trans hg
  exact hlt

/-- Only the outermost frame has none around it. -/
theorem parent?_eq_none_iff (h : μ.Sound o) {f : FrameId} (hf : f < μ.frames.size) :
    μ.frames.parent? f = none ↔ f = Store.globals := by
  refine ⟨fun hnone ↦ ?_, fun hglobals ↦ hglobals ▸ h.root⟩
  by_contra hne
  obtain ⟨s, hs⟩ := h.frames f hf hne
  obtain ⟨g, -, hg⟩ := hs.parent
  exact absurd (hnone.symm.trans hg) nofun

/-- **Memory in order is grounded**, if the current frame is there. -/
theorem grounded {m : Machine} (h : m.memory.Sound o) (hhere : m.here < m.store.frames.size) :
    m.Grounded where
  here := hhere
  functions c hc := (h.items (.closure c) hc).2.lt_size h
  methods k hk x c hc := Closure.Bindable.lt_size (h.items (.method c) ⟨k, hk, x, hc⟩) h
  references r hr := (h.items (.reference r) hr).runnable.lt_size h
  enclosed f hf hne := by
    obtain ⟨s, hs⟩ := h.frames f hf hne
    exact hs.parent
  outermost f hf := h.parent?_eq_none_iff hf
  superclass id p hp := h.items (.derived id p) hp
  outward f hf := Frames.exists_outward h.descends_parent?
    (fun g hg hnone ↦ (h.parent?_eq_none_iff hg).1 hnone) hf
  upward id hid := Store.exists_upward (fun k p hp ↦ h.items (.derived k p) hp) hid

end Memory.Sound

theorem Activity.Ready.here_lt_size {o : Labels} {m : Machine} {activity : Activity}
    (h : activity.Ready o m) (hm : m.memory.Sound o) : m.here < m.store.frames.size := by
  cases activity with
  | node n => exact Runnable.lt_size h hm
  | call callee arguments => exact Applicable.here h

theorem justified_grounding : Watch.Justified fun _ ↦ grounding where
  enters := by
    rintro o lab m activity hm hready - -
    refine ⟨hm.grounded (hready.here_lt_size hm), ?_⟩
    rintro c arguments rfl
    obtain ⟨hcallable, -⟩ := Applicable.callee hready
    exact hcallable.lt_size hm
  leaves := by
    rintro o o' lab m m' activity ending hm hready leads - -
    have hhere := leads.here_lt_size (hready.here_lt_size hm)
    exact ⟨leads.grows.sound.grounded hhere, leads.grows.later⟩

/-- **Frames and classes are well-founded.** Whatever sources a machine has run, every state of the
history is grounded, in every run of it and at its end, and all that was there between two runs
keeps its number. -/
theorem Machine.grounded_after (arguments : List String) (world : World) (tracing : Bool)
    (turns : List Turn) :
    grounding.FindsNothing (initial arguments world tracing) turns ∧
      ((initial arguments world tracing).after turns).Grounded ∧
      ∀ earlier later, turns = earlier ++ later →
        ((initial arguments world tracing).after earlier).memory.Later
          ((initial arguments world tracing).after turns).memory := by
  have hinitial := rests_initial arguments world tracing
  obtain ⟨o, leads, hnothing⟩ := sound_after justified_grounding hinitial turns
  have hrests := hinitial.leads leads
  refine ⟨hnothing o (.refl o _), hrests.memory.grounded (hrests.here ▸ hrests.memory.size), ?_⟩
  rintro earlier later rfl
  obtain ⟨o₁, leads₁, -⟩ := sound_after justified_grounding hinitial earlier
  obtain ⟨o₂, leads₂, -⟩ := sound_after justified_grounding (hinitial.leads leads₁) later
  rw [after_append]
  exact leads₂.grows.later

end AliasScript
