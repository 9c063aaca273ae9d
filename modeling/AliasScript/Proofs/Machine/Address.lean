import AliasScript.Proofs.Machine.Growth

/-!
# Where names are found

A name that the walk over scopes found at a distance is in the frame at that distance, which is an
instance of the scope that declares the name (`Stands.declarer`). The name is bound there, unless
the node lies in the initial value of the variable of that name, which is bound only after that.
`this` and `super` are always bound where they are used (`Stands.this`, `Stands.super`).
-/

namespace AliasScript

/-! ### Visits of known programs -/

theorem Memory.Visits.lawful {μ : Memory} {v : Visit} (h : μ.Visits v) :
    ∃ program, μ.Knows program ∧ Walks program v ∧ v.Lawful program := by
  obtain ⟨program, hknows, hv⟩ := h
  obtain ⟨index, source, addresses, haccepted⟩ := hknows.accepted
  exact ⟨program, hknows, hv, haccepted.lawful hv⟩

theorem Memory.Visits.context {μ : Memory} {v : Visit} (h : μ.Visits v) : v.toContext.Lawful := by
  obtain ⟨program, -, -, hlawful⟩ := h.lawful
  exact hlawful.context

theorem Memory.Visits.inside {μ : Memory} {v w : Visit} (h : μ.Visits v)
    (hw : w ∈ v.entered.inOrder v.node.parts) : μ.Visits w := by
  obtain ⟨program, hknows, hv⟩ := h
  exact ⟨program, hknows, .inside hv hw⟩

/-- The tokens of a node are spelled as their kinds say. -/
theorem Memory.Visits.wellSpelled {μ : Memory} {v : Visit} (h : μ.Visits v) {t : Token}
    (ht : t ∈ v.node.names) : t.WellSpelled := by
  obtain ⟨program, hknows, hv⟩ := h
  obtain ⟨index, source, addresses, haccepted⟩ := hknows.accepted
  exact Scan.wellSpelled (haccepted.mem_tokens (hv.names_subset ht))

section Runnable

variable {o : Labels} {μ : Memory} {f : FrameId} {node : Node} {t : Token}

theorem Runnable.stratified (h : Runnable o μ f node) : node.Stratified := by
  obtain ⟨c, hstands⟩ := h
  obtain ⟨program, -, -, hlawful⟩ := hstands.visits.lawful
  exact hlawful.stratified

/-- The names that an expression uses are ordinary ones, unless it is `this` or `super`. -/
theorem Runnable.ordinary (h : Runnable o μ f node) (ht : t ∈ node.uses)
    (hkind : t.kind = .identifier) : t.Ordinary := by
  obtain ⟨c, ⟨program, hknows, hv⟩, -⟩ := h
  obtain ⟨index, source, addresses, haccepted⟩ := hknows.accepted
  exact haccepted.ordinary (hv.names_subset (Node.mem_names_of_mem_uses ht)) hkind

end Runnable

/-! ### The frame that declares a name -/

/-- Nothing is pending in a scope without statements. -/
theorem OpenScope.Lawful.not_pends {s : OpenScope} (h : s.Lawful) (hbody : s.scope.body = [])
    (x : String) : ¬ s.Pends x := by
  rintro ⟨stmt, hstmt, -⟩
  have hmem := h.pending stmt hstmt
  rw [hbody] at hmem
  cases hmem

namespace Stands

variable {o : Labels} {μ : Memory} {f : FrameId} {v : Visit} {x : String} {d : Nat}

/-- The distance of a use is the one that the walk found. -/
theorem distance (h : Stands o μ f v) {t : Token} (ht : t ∈ v.node.uses) :
    μ.distances.find? t.index = v.start.distance? t.lexeme := by
  obtain ⟨program, hknows, hv⟩ := h.visits
  exact (hknows.distances v hv t ht).2

/-- **The frame at the distance of a name is an instance of the scope that declares it.** -/
theorem declarer (h : Stands o μ f v) (hd : v.start.distance? x = some d) :
    ∃ s g, v.scopes[d]? = some s ∧ μ.frames.ancestor? f d = some g ∧ o g = some s.scope ∧
      x ∈ s.scope.declares ∧ (s.Pends x ∨ (μ.frames.valueIn g x).isSome) := by
  obtain ⟨hlt, hcontains, -⟩ := List.findIdx?_eq_some_iff_getElem.1 hd
  have hlt' : d < v.scopes.length := h.chain.length_eq ▸ hlt
  obtain ⟨g, seen, hancestor, hseen, hlabel, -, hbound⟩ :=
    h.chain.ancestor (List.getElem?_eq_getElem hlt')
  have hmem : x ∈ seen := by
    rw [List.getElem?_eq_getElem hlt] at hseen
    cases hseen
    simpa using hcontains
  have hfits := h.visits.context.fits.get hlt' hlt
  refine ⟨_, g, List.getElem?_eq_getElem hlt', hancestor, hlabel, hfits.2 ?_, hbound x hmem⟩
  simpa using hcontains

/-- A name that a scope without statements declares is bound in its frame. -/
theorem bound_of_body (h : Stands o μ f v) (hd : v.start.distance? x = some d) {s : OpenScope}
    (hs : v.scopes[d]? = some s) (hbody : s.scope.body = []) :
    ∃ g w, μ.frames.ancestor? f d = some g ∧ o g = some s.scope ∧
      μ.frames.valueIn g x = some w := by
  obtain ⟨s', g, hs', hancestor, hlabel, -, hbound⟩ := h.declarer hd
  cases hs.symm.trans hs'
  have hlawful := h.visits.context.each s (List.mem_of_getElem? hs)
  obtain ⟨w, hw⟩ := Option.isSome_iff_exists.1 (hbound.resolve_left (hlawful.not_pends hbody x))
  exact ⟨g, w, hancestor, hlabel, hw⟩

end Stands

section Classes

variable {o : Labels} {μ : Memory} {f : FrameId} {c : Context} {keyword method : Token}

/-- **`this` is bound where it is used.** -/
theorem Stands.this (h : Stands o μ f ⟨c, .expr (.this keyword)⟩) :
    keyword.lexeme = "this" ∧ ∃ d g v, μ.distances.find? keyword.index = some d ∧
      μ.frames.ancestor? f d = some g ∧ μ.frames.valueIn g "this" = some v := by
  have huse : keyword ∈ (Node.expr (.this keyword)).uses := List.mem_singleton.2 rfl
  have hlexeme : keyword.lexeme = "this" := by
    have hspelled := h.visits.wellSpelled (Node.mem_names_of_mem_uses huse)
    exact hspelled.lexeme_this (Runnable.stratified ⟨c, h⟩)
  obtain ⟨program, hknows, hv⟩ := h.visits
  obtain ⟨index, source, addresses, haccepted⟩ := hknows.accepted
  have hlawful := h.visits.context
  obtain ⟨d, name, pending, hfind, hscope⟩ := hlawful.encloses.this (haccepted.inClass_of_this hv)
    hlawful.fits fun s hs ↦ (hlawful.each s hs).plain
  obtain ⟨g, v, hancestor, -, hv⟩ := h.bound_of_body hfind hscope rfl
  refine ⟨hlexeme, d, g, v, ?_, hancestor, hv⟩
  rw [h.distance huse, hlexeme]
  exact hfind

/-- The frame is inside of a class with a superclass: at a distance is the frame of the receiver,
and one further out the frame that the methods of the class were made in. -/
structure InsideClass (o : Labels) (μ : Memory) (f : FrameId) (c : Context) (d : Nat)
    (declaration : Stmt) (receiver : Value) (id p : ClassId) (line : List Origin) : Prop where
  /-- The innermost class is meant. -/
  innermost : c.start.distance? "this" = some d
  receiverScope : c.scopes[d]?.map OpenScope.scope = some (.receiver declaration)
  superclassScope : c.scopes[d + 1]?.map OpenScope.scope = some (.superclass declaration)
  receiver : ∃ g, μ.frames.ancestor? f d = some g ∧ o g = some (.receiver declaration) ∧
    μ.frames.valueIn g "this" = some receiver
  /-- The class was made together with the frame, and binds its superclass there. -/
  superclass : ∃ g, μ.frames.ancestor? f (d + 1) = some g ∧ o g = some (.superclass declaration) ∧
    μ.frames.valueIn g "super" = some (.classValue p) ∧
    μ.store.Line id (⟨declaration, g⟩ :: line) ∧ μ.store.superclass? id = some p

/-- A frame with a label is an instance of that scope. -/
theorem Memory.Sound.instanceOf (h : μ.Sound o) (hf : f < μ.frames.size) {s : Scope}
    (hlabel : o f = some s) : μ.Instance o f s := by
  have hne : f ≠ Store.globals := by
    rintro rfl
    exact absurd (h.outermost.symm.trans hlabel) nofun
  obtain ⟨s', hs'⟩ := h.frames f hf hne
  cases hs'.label.symm.trans hlabel
  exact hs'

/-- **`super` is bound where it is used, one frame outside of `this`**, and both are those of one
class. -/
theorem Stands.super (h : Stands o μ f ⟨c, .expr (.super keyword method)⟩) (hμ : μ.Sound o) :
    keyword.lexeme = "super" ∧ ∃ d declaration receiver id p line,
      μ.distances.find? keyword.index = some (d + 1) ∧
      InsideClass o μ f c d declaration receiver id p line := by
  have huse : keyword ∈ (Node.expr (.super keyword method)).uses := List.mem_singleton.2 rfl
  have hlexeme : keyword.lexeme = "super" := by
    have hspelled := h.visits.wellSpelled (Node.mem_names_of_mem_uses huse)
    exact hspelled.lexeme_super (Runnable.stratified ⟨c, h⟩).1
  obtain ⟨program, hknows, hv⟩ := h.visits
  obtain ⟨index, source, addresses, haccepted⟩ := hknows.accepted
  have hlawful := h.visits.context
  obtain ⟨d, declaration, pending, pending', hsuper, hthis, hscope, hscope'⟩ :=
    hlawful.encloses.super (haccepted.inClass_of_super hv) hlawful.fits
      fun s hs ↦ (hlawful.each s hs).plain
  obtain ⟨g, receiver, hancestor, hlabel, hreceiver⟩ := h.bound_of_body hthis hscope rfl
  obtain ⟨g', w, hancestor', hlabel', hw⟩ := h.bound_of_body hsuper hscope' rfl
  -- The frame of `super` was made together with the class, so it is known which class that is.
  obtain ⟨id, p, line, hline, hsuperclass, hp⟩ :=
    (hμ.instanceOf (Frames.lt_size_of_valueIn hw) hlabel').superclass declaration rfl
  refine ⟨hlexeme, d, declaration, receiver, id, p, line, ?_, hthis, by rw [hscope]; rfl,
    by rw [hscope']; rfl, ⟨g, hancestor, hlabel, hreceiver⟩,
    ⟨g', hancestor', hlabel', hp, hline, hsuperclass⟩⟩
  rw [h.distance huse, hlexeme]
  exact hsuper

end Classes

end AliasScript
