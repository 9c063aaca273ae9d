import AliasScript.Proofs.Session.History

/-!
# Lexical addressing

Two passes keep in step: the walk over scopes, which says of every use of a name how many scopes
away the name is declared, and the run, which goes as many frames outward without searching. Where
the walk comes to a node with some scopes open, the run comes to it with one frame for each of
them, the instance of that scope, and then the outermost frame (`Visit.Addressed`). So a use with a
distance leads to the frame of the scope that declares the name, and a use without one leads to the
outermost frame or to none.

A name with a distance is missing only if the node lies in the initial value of the variable of that
name and no declaration of it has been completed in that frame: a declaration that is completed has
bound its name there, and a name that is bound stays bound.

Both the labelling of frames and the visit of a node are given by the theorem: there is one
labelling for the whole history of a machine, and at each node a visit of the walk over an accepted
program.
-/

namespace AliasScript

/-! ### Addresses at run time -/

/-- **What reading and overwriting a name do at the frame that it leads to**: reading gives the
value that the frame has for the name, and overwriting binds the name anew in that frame and changes
nothing else. If the name leads to no frame, both fail and leave everything as it was. -/
structure Machine.UsesAt (m : Machine) (t : Token) (b : Option FrameId) : Prop where
  binder : Run.binder? t m = .ok b m
  reads : ∀ g, b = some g → ∃ v, m.store.frames.valueIn g t.lexeme = some v ∧
    Run.lookup t m = .ok v m
  overwrites : ∀ g, b = some g → ∀ v, Run.overwrite t v m =
    .ok () { m with store := { m.store with frames := m.store.frames.define g t.lexeme v } }
  undefined : b = none →
    Run.lookup t m = .error (.fault ⟨t, .undefinedVariable t.lexeme⟩) m ∧
    ∀ v, Run.overwrite t v m = .error (.fault ⟨t, .undefinedVariable t.lexeme⟩) m

/-- A name is looked for once, and used where it was found. -/
theorem Machine.usesAt {m : Machine} {t : Token} {b : Option FrameId}
    (h : Run.binder? t m = .ok b m) : m.UsesAt t b := by
  have hbound : ∀ g, b = some g → ∃ v, m.store.frames.valueIn g t.lexeme = some v := by
    rintro g rfl
    refine Option.isSome_iff_exists.1 ?_
    simp only [Run.binder?, Run.read, EStateM.Result.ok.injEq, and_true] at h
    split at h
    · exact Frames.isSome_of_binderAt? h
    · exact Frames.isSome_of_find? h
  refine ⟨h, ?_, ?_, ?_⟩
  · rintro g rfl
    obtain ⟨v, hv⟩ := hbound g rfl
    refine ⟨v, hv, ?_⟩
    simp only [Run.lookup, bind, EStateM.bind, h, Run.read, Option.bind_some, hv]
    rfl
  · rintro g rfl v
    simp only [Run.overwrite, bind, EStateM.bind, h]
    rfl
  · rintro rfl
    refine ⟨?_, fun v ↦ ?_⟩
    · simp only [Run.lookup, bind, EStateM.bind, h, Run.read, Option.bind_none]
      rfl
    · simp only [Run.overwrite, bind, EStateM.bind, h]
      rfl

/-- The scope is left open inside of the initial value of a variable of that name. -/
def OpenScope.Awaits (s : OpenScope) (x : String) : Prop :=
  ∃ name initial, s.pending = some (.var name (some initial)) ∧
    .var name (some initial) ∈ s.scope.body ∧ name.lexeme = x

namespace Visit

/-- **Where a use of a name leads** from the current frame: to the instance of the scope that
declares the name, at the distance of the use, or to the outermost frame if the use has none. There
the name is read and overwritten. -/
def Finds (lab : Labels) (v : Visit) (t : Token) (m : Machine) : Prop :=
  match m.distances.find? t.index with
  | some d =>
    ∃ s g b, v.scopes[d]? = some s ∧ m.store.frames.ancestor? m.here d = some g ∧
      lab g = some s.scope ∧ t.lexeme ∈ s.scope.declares ∧ m.UsesAt t b ∧
      (b = some g ∨ b = none ∧ s.Awaits t.lexeme)
  | none => ∃ b, m.UsesAt t b ∧ ∀ g ∈ b, g = Store.globals

/-- The current frame is where the visit says: the frames outward are instances of the open scopes,
and uses of names lead to the scopes that declare them, now and as memory grows. -/
structure Addressed (lab : Labels) (v : Visit) (m : Machine) : Prop where
  accepted : ∃ index source program addresses,
    Accepted index source program addresses ∧ Walks program v
  /-- The open scopes are those of the walk. -/
  stack : List.Forall₂ OpenScope.Fits v.scopes v.start.scopes
  frames : ∀ i s, v.scopes[i]? = some s →
    ∃ g, m.store.frames.ancestor? m.here i = some g ∧ lab g = some s.scope
  outermost : m.store.frames.ancestor? m.here v.scopes.length = some Store.globals
  finds : ∀ t ∈ v.node.uses, ∀ m', m.memory.Later m'.memory → m'.here = m.here →
    m'.distances.find? t.index = v.start.distance? t.lexeme ∧ v.Finds lab t m'
  /-- The receiver of `super` is in the scope right inside of that of `super`. -/
  receiver : ∀ keyword method, v.node = .expr (.super keyword method) → ∃ d declaration,
    m.distances.find? keyword.index = some (d + 1) ∧
    v.scopes[d]?.map OpenScope.scope = some (.receiver declaration) ∧
    v.scopes[d + 1]?.map OpenScope.scope = some (.superclass declaration) ∧
    (m.store.frames.getAt m.here d "this").isSome

end Visit

/-- Nothing is found outside of the outermost frame. -/
theorem Frames.eq_of_find? {fs : Frames} {f g : FrameId} {x : String} (hroot : parent? fs f = none)
    (h : find? fs f x = some g) : g = f := by
  unfold find? at h
  cases hn : fs.size with
  | zero =>
    rw [hn] at h
    cases h
  | succ n =>
    rw [hn, findWithin, hroot] at h
    split at h
    · exact (Option.some.inj h).symm
    · cases h

namespace Stands

variable {o lab : Labels} {m : Machine} {v : Visit} {t : Token}

/-- A name that is not bound although a scope has seen it is awaited there. -/
theorem awaits {μ : Memory} {f : FrameId} (h : Stands o μ f v) (ht : t ∈ v.node.uses)
    {s : OpenScope} (hs : s ∈ v.scopes) (hpends : s.Pends t.lexeme) : s.Awaits t.lexeme := by
  obtain ⟨program, -, -, hlawful⟩ := h.visits.lawful
  obtain ⟨stmt, hstmt, name, hdeclared, hlexeme⟩ := hpends
  have hbody := (hlawful.context.each s hs).pending stmt hstmt
  rcases hlawful.pending s hs stmt hstmt with ⟨name', initial, rfl⟩ | hclass
  · cases hdeclared
    exact ⟨name, initial, hstmt, hbody, hlexeme⟩
  · obtain ⟨name', superclass, methods, classMethods, rfl, hnode, hne⟩ := hclass
    cases hdeclared
    rw [hnode] at ht
    cases List.mem_singleton.1 ht
    exact absurd hlexeme hne

/-- **A use leads to the scope that declares the name.** -/
theorem finds (h : Stands o m.memory m.here v)
    (hroot : m.memory.frames.parent? Store.globals = none) (ht : t ∈ v.node.uses) :
    v.Finds o t m := by
  have hdistance : m.distances.find? t.index = v.start.distance? t.lexeme := h.distance ht
  unfold Visit.Finds
  cases hd : v.start.distance? t.lexeme with
  | none =>
    rw [hd] at hdistance
    simp only [hdistance]
    refine ⟨_, Machine.usesAt (by simp only [Run.binder?, Run.read, hdistance]; rfl), fun g hg ↦ ?_⟩
    exact Frames.eq_of_find? hroot hg
  | some d =>
    rw [hd] at hdistance
    simp only [hdistance]
    obtain ⟨s, g, hs, hancestor, hlabel, hdeclares, hbound⟩ := h.declarer hd
    refine ⟨s, g, _, hs, hancestor, hlabel, hdeclares,
      Machine.usesAt (by simp only [Run.binder?, Run.read, hdistance]; rfl), ?_⟩
    have hancestor : m.store.frames.ancestor? m.here d = some g := hancestor
    unfold Frames.binderAt?
    rw [hancestor]
    cases hvalue : (m.store.frames.valueIn g t.lexeme).isSome with
    | true => exact .inl (Option.filter_eq_some_iff.2 ⟨rfl, hvalue⟩)
    | false =>
      refine .inr ⟨by simp [Option.filter, hvalue], h.awaits ht (List.mem_of_getElem? hs) ?_⟩
      exact hbound.resolve_right fun hsome ↦ absurd (hvalue.symm.trans hsome) (by decide)

/-- **A node that can be run is where the walk over scopes says.** -/
theorem addressed (h : Stands o m.memory m.here v) (hm : m.memory.Sound o)
    (hlab : o.Agrees lab m.store.frames.size) : v.Addressed lab m := by
  have hstands : ∀ m' : Machine, m.memory.Later m'.memory → m'.here = m.here →
      Stands lab m'.memory m'.here v := fun m' hlater hhere ↦ hhere ▸ h.later hlater hlab
  have hnow := hstands m (.refl _) rfl
  obtain ⟨program, hknows, hv⟩ := h.visits
  obtain ⟨index, source, addresses, haccepted⟩ := hknows.accepted
  refine ⟨⟨index, source, program, addresses, haccepted, hv⟩, h.visits.context.fits, ?_,
    hnow.chain.ancestor_outermost, ?_, ?_⟩
  · intro i s hs
    obtain ⟨g, seen, hancestor, -, hlabel, -⟩ := hnow.chain.ancestor hs
    exact ⟨g, hancestor, hlabel⟩
  · intro t ht m' hlater hhere
    have hlaterStands := hstands m' hlater hhere
    refine ⟨hlaterStands.distance ht, hlaterStands.finds ?_ ht⟩
    exact (hlater.parent _ hm.size).trans hm.root
  · rintro keyword method hnode
    obtain ⟨c, node⟩ := v
    cases hnode
    obtain ⟨-, d, declaration, receiver, id, p, line, hdistance, hinside⟩ := h.super hm
    obtain ⟨g, hancestor, -, hthis⟩ := hinside.receiver
    refine ⟨d, declaration, hdistance, hinside.receiverScope, hinside.superclassScope, ?_⟩
    exact Option.isSome_iff_exists.2
      ⟨receiver, Option.bind_eq_some_iff.2 ⟨g, hancestor, hthis⟩⟩

end Stands

/-! ### The watch -/

/-- Every alias is read where the walk over scopes came to its target. -/
def Machine.ReferencesAddressed (lab : Labels) (m : Machine) : Prop :=
  ∀ r ∈ m.store.references, ∃ v : Visit, v.node = .expr r.target ∧
    v.Addressed lab { m with here := r.frame }

/-- Every frame but the outermost is an instance of one scope: it binds the names that the scope is
entered with, and no others than those that the scope declares. -/
def Machine.FramesLabelled (lab : Labels) (m : Machine) : Prop :=
  ∀ f < m.store.frames.size, f ≠ Store.globals → ∃ s, lab f = some s ∧
    (∀ x ∈ s.bound, (m.store.frames.valueIn f x).isSome) ∧
    ∀ x, (m.store.frames.valueIn f x).isSome → x ∈ s.declares

/-- Whenever the evaluator comes to a node, the current frame is where the walk over scopes came to
it. When it leaves the node, it is back in that frame, memory has only grown, and a declaration that
is completed has bound its name. -/
def addressing (lab : Labels) : Watch where
  enters _ activity m :=
    (∀ node, activity = .node node → ∃ v : Visit, v.node = node ∧ v.Addressed lab m) ∧
      m.ReferencesAddressed lab ∧ m.FramesLabelled lab
  leaves _ activity m ending m' :=
    m'.here = m.here ∧ m.memory.Later m'.memory ∧ m'.ReferencesAddressed lab ∧
      m'.FramesLabelled lab ∧
      ∀ s, activity = .node (.stmt s) → ending = .flow .normal → ∀ name ∈ s.declared?,
        (m'.store.frames.valueIn m.here name.lexeme).isSome

section Justified

variable {o lab : Labels} {m : Machine}

theorem Memory.Sound.referencesAddressed (hm : m.memory.Sound o)
    (hlab : o.Agrees lab m.store.frames.size) : m.ReferencesAddressed lab := by
  intro r hr
  obtain ⟨c, hstands⟩ := (hm.items (.reference r) hr).runnable
  exact ⟨_, rfl, Stands.addressed (by exact hstands) (by exact hm) (by exact hlab)⟩

theorem Memory.Sound.framesLabelled (hm : m.memory.Sound o)
    (hlab : o.Agrees lab m.store.frames.size) : m.FramesLabelled lab := by
  intro f hf hglobals
  obtain ⟨s, hs⟩ := hm.frames f hf hglobals
  refine ⟨s, (hlab f hf).trans hs.label, hs.bound, fun x hx ↦ ?_⟩
  obtain ⟨v, hv⟩ := Option.isSome_iff_exists.1 hx
  exact (hm.items (.binding f x v) hv).declared s hs.label

theorem justified_addressing : Watch.Justified addressing where
  enters := by
    rintro o lab m activity hm hready - hlab
    refine ⟨?_, hm.referencesAddressed hlab, hm.framesLabelled hlab⟩
    rintro node rfl
    obtain ⟨c, hstands⟩ := hready
    exact ⟨_, rfl, hstands.addressed hm hlab⟩
  leaves := by
    rintro o o' lab m m' activity ending hm - leads hending hlab
    have hm' := leads.grows.sound
    refine ⟨leads.here, leads.grows.later, hm'.referencesAddressed hlab,
      hm'.framesLabelled hlab, ?_⟩
    rintro s rfl rfl
    cases hending with
    | flow _ hends => exact fun name hname ↦ (hends.2 rfl).bound hname

end Justified

/-- **Lexical addressing is sound.** Whatever sources a machine has run, there is one labelling of
its frames by scopes such that in every run of the history the evaluator comes to each node, and
leaves it, as `addressing` says. -/
theorem Machine.exists_labels_addressing (arguments : List String) (world : World) (tracing : Bool)
    (turns : List Turn) :
    ∃ lab : Labels, lab Store.globals = none ∧
      (addressing lab).FindsNothing (initial arguments world tracing) turns := by
  obtain ⟨lab, leads, hnothing⟩ :=
    sound_after justified_addressing (rests_initial arguments world tracing) turns
  exact ⟨lab, leads.grows.sound.outermost, hnothing lab (.refl lab _)⟩

end AliasScript
