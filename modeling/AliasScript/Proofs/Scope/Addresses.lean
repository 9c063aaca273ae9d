import AliasScript.Machine
import AliasScript.Proofs.Program.Parsed
import AliasScript.Proofs.Scope.Walk
import AliasScript.Proofs.Token.Scanned

/-!
# The table of distances

The distance that the table holds for a use of a name is the one that the walk saw when it came to
that use (`Accepted.find?_extend`). The table is keyed by the indices of tokens, so this needs that
no two names of a program share a token, and no two tokens an index.

A visit lies *within* the walk over a program if what the walk does before and after it concerns
other names than those of its node. All visits do (`Walks.within`), so all that is ever noted for
a name is noted at the visit that the name belongs to.
-/

namespace AliasScript

open Resolution

/-! ### Adding addresses to the table -/

/-- **The last address of an index counts.** -/
theorem Distances.find?_extend (d : Distances) (addresses : List Address) (index : Nat) :
    (d.extend addresses).find? index =
      ((addresses.filter (·.token.index == index)).getLast?.map Address.distance).or
        (d.find? index) := by
  induction addresses generalizing d with
  | nil => rfl
  | cons a rest ih =>
    have hstep : d.extend (a :: rest) = (d.insert a.token.index a.distance).extend rest := rfl
    rw [hstep, ih, find?_insert]
    by_cases h : a.token.index = index
    · subst h
      cases hrest : (rest.filter (·.token.index == a.token.index)).getLast? <;>
        simp [List.getLast?_cons, hrest]
    · have h' : ¬ index = a.token.index := fun e ↦ h e.symm
      simp [h, h']

/-- An index of none of the addresses keeps its distance. -/
theorem Distances.find?_extend_of_forall_ne (d : Distances) {addresses : List Address}
    {index : Nat} (h : ∀ a ∈ addresses, a.token.index ≠ index) :
    (d.extend addresses).find? index = d.find? index := by
  have hnone : addresses.filter (·.token.index == index) = [] := by simpa using h
  rw [find?_extend, hnone]
  rfl

/-! ### Visits within a walk -/

/-- What a walk from one state to another does before and after the visit concerns other
occurrences of names. -/
def Visit.Within (w : Visit) (names : List Token) (r r' : Resolution) : Prop :=
  ∃ before after, names = before ++ (w.node.names ++ after) ∧
    Walked before r w.start ∧ Walked after w.finish r'

namespace Visit

variable {v w : Visit} {names : List Token} {r r' : Resolution}

/-- What is within a visit inside of another is within that one. -/
theorem Within.trans (h : v.Within names r r') (h' : w.Within v.node.names v.start v.finish) :
    w.Within names r r' := by
  obtain ⟨before, after, rfl, hbefore, hafter⟩ := h
  obtain ⟨before', after', hnames, hbefore', hafter'⟩ := h'
  exact ⟨before ++ before', after' ++ after, by simp [hnames], hbefore.trans hbefore',
    hafter'.trans hafter⟩

/-- What is visited inside of a node is within its visit. -/
theorem within_of_mem_inOrder (h : w ∈ v.entered.inOrder v.node.parts) :
    w.Within v.node.names v.start v.finish := by
  obtain ⟨before, after, hnames, hbefore, hafter⟩ := Context.walked_of_mem_inOrder h
  refine ⟨v.node.heads ++ before, after ++ v.node.uses, by simp [Node.names_eq v.node, hnames],
    v.walked_entered.trans hbefore, ?_⟩
  rw [finish_eq v]
  exact hafter.trans (walked_close _ _ _)

/-- The superclass of a class is within the visit of the class. -/
theorem within_superclass (c : Context) (name superclass : Token)
    (methods classMethods : List Function) {s : Stmt}
    (hs : s = .classDecl name (some superclass) methods classMethods) :
    (Visit.mk (c.atSuperclass s name superclass) (.expr (.variable superclass))).Within
      (Node.stmt s).names c.start (Visit.mk c (.stmt s)).finish := by
  have hbefore := (c.walked_atSuperclass s name superclass).mono (List.nil_subset [name])
  subst hs
  refine ⟨[name], ((methods ++ classMethods).map Node.function).flatMap Node.names, ?_,
    hbefore, ?_⟩
  · rw [Node.names_eq]
    simp [Node.heads, Node.parts, Node.uses, Stmt.parts, Node.names, Expr.names]
  · have hmethods := Context.walked
      (c.atParts (.classDecl name (some superclass) methods classMethods))
      ((methods ++ classMethods).map .function)
    have hafter := ((walked_enter _ ["super"]).trans (walked_enter _ ["this"])).trans
      (hmethods.trans (walked_close c.surroundings
        (.stmt (.classDecl name (some superclass) methods classMethods)) _))
    rw [finish_eq (Visit.mk c _)]
    exact hafter.mono (by simp [Node.uses])

end Visit

/-- What the walk over a whole program finds. -/
def Program.walked (program : Program) : Resolution :=
  Context.outermost.walk (program.map .stmt)

/-- **Every visit lies within the walk over the program.** -/
theorem Walks.within {program : Program} {w : Visit} (h : Walks program w) :
    w.Within (stmtsNames program) .empty program.walked := by
  induction h with
  | top h =>
    rw [stmtsNames_eq]
    exact Context.walked_of_mem_inOrder h
  | inside _ hmem ih => exact ih.trans (Visit.within_of_mem_inOrder hmem)
  | superclass hs _ ih => exact ih.trans (Visit.within_superclass _ _ _ _ _ hs)

/-! ### Accepted programs -/

namespace Accepted

variable {index : Nat} {source : String} {program : Program} {addresses : List Address}

/-- An accepted source is parsed. -/
theorem parse_eq_ok (h : Accepted index source program addresses) :
    Program.parse (Scan.ofSource index source).tokens (Scan.ofSource index source).eof =
      .ok program := by
  have hparsed := h.parsed
  simp only [Scan.program?, Scan.program] at hparsed
  split at hparsed
  · next hok =>
    split at hparsed
    · cases hparsed
      exact hok
    · cases hparsed
  · cases hparsed

/-- An accepted program is stratified. -/
theorem stratified (h : Accepted index source program addresses) : StmtsStratified program :=
  (Program.says_of_parse h.parse_eq_ok).1

/-- The names of an accepted program are tokens of the source. -/
theorem mem_tokens (h : Accepted index source program addresses) {t : Token}
    (ht : t ∈ stmtsNames program) : t ∈ (Scan.ofSource index source).tokens := by
  have hcount := Program.covers_of_parse h.parse_eq_ok t
  exact List.count_pos_iff.1 (Nat.lt_of_lt_of_le (List.count_pos_iff.2 ht) hcount)

/-- No token is made two names of. -/
theorem nodup_names (h : Accepted index source program addresses) : (stmtsNames program).Nodup :=
  List.nodup_iff_count_le_one.2 fun t ↦ Nat.le_trans (Program.covers_of_parse h.parse_eq_ok t)
    (List.nodup_iff_count_le_one.1 (Scan.nodup_tokens index source) t)

/-- An accepted program has no errors, and its distances are those of the walk. -/
theorem addresses_eq (h : Accepted index source program addresses) :
    program.walked.errors = #[] ∧ program.walked.addresses.toList = addresses := by
  have hresolved := h.resolved
  simp only [Program.addresses, resolveStmts_eq] at hresolved
  split at hresolved
  · next hempty =>
    exact ⟨Array.isEmpty_iff.1 hempty, Except.ok.inj hresolved⟩
  · cases hresolved

variable {v : Visit}

/-- The walk over an accepted program notes no error at any node. -/
theorem errors_finish (h : Accepted index source program addresses) (hv : Walks program v) :
    v.finish.errors.size = 0 := by
  obtain ⟨_, _, _, _, hafter⟩ := hv.within
  have hle := hafter.errors
  rw [h.addresses_eq.1] at hle
  exact Nat.le_zero.1 hle

end Accepted

variable {program : Program} {v : Visit} {t : Token}

/-- The names of a node are names of the program, in their order. -/
theorem Walks.sublist_names (hv : Walks program v) :
    v.node.names.Sublist (stmtsNames program) := by
  obtain ⟨before, after, hnames, -⟩ := hv.within
  rw [hnames]
  exact (List.sublist_append_left _ _).trans (List.sublist_append_right _ _)

theorem Walks.names_subset (hv : Walks program v) : v.node.names ⊆ stmtsNames program :=
  hv.sublist_names.subset

/-- A use of a name is one of the names of its node. -/
theorem Node.mem_names_of_mem_uses {node : Node} (h : t ∈ node.uses) : t ∈ node.names := by
  rw [Node.names_eq]
  simp [h]

/-- Where names do not repeat, all that is noted for a name is noted at the visit that the name
belongs to. -/
theorem Walks.notes (hnodup : (stmtsNames program).Nodup) (hv : Walks program v)
    (ht : t ∈ v.node.names) : v.start.notes t = [] ∧ program.walked.notes t = v.finish.notes t := by
  obtain ⟨before, after, hnames, hbefore, hafter⟩ := hv.within
  rw [hnames, List.nodup_append', List.nodup_append'] at hnodup
  obtain ⟨-, ⟨-, -, hdisjoint⟩, hdisjoint'⟩ := hnodup
  have htbefore : t ∉ before := fun h ↦ hdisjoint' h (by simp [ht])
  exact ⟨hbefore.notes t htbefore, hafter.notes t fun h ↦ hdisjoint ht h⟩

/-- A node whose walk notes no error uses its own name. -/
theorem Expr.resolveSelf_eq_use {k : Surroundings} {e : Expr} {r : Resolution}
    (h : (e.resolveSelf k r).errors.size = 0) (ht : t ∈ e.uses) :
    e.resolveSelf k r = r.use t := by
  cases e with
  | «variable» name | assign name value =>
    rw [List.mem_singleton.1 ht]
    rfl
  | this keyword =>
    rw [List.mem_singleton.1 ht]
    simp only [Expr.resolveSelf] at h ⊢
    split at h
    · simp [report] at h
    · rfl
  | super keyword method =>
    rw [List.mem_singleton.1 ht]
    simp only [Expr.resolveSelf] at h ⊢
    split at h
    · simp [report] at h
    · simp [report] at h
    · rfl
  | _ => cases ht

/-- A distance depends on scopes alone. -/
theorem Resolution.distance?_congr {r r' : Resolution} (h : r'.scopes = r.scopes) (name : String) :
    r'.distance? name = r.distance? name := by
  rw [distance?, distance?, h]

namespace Accepted

variable {index : Nat} {source : String} {addresses : List Address}

/-- **What is noted for a use of a name is the distance that the walk sees there.** -/
theorem filter_token (h : Accepted index source program addresses) (hv : Walks program v)
    (ht : t ∈ v.node.uses) :
    addresses.filter (·.token == t) =
      (v.start.distance? t.lexeme).toList.map (Address.mk t) := by
  obtain ⟨hstart, hfinish⟩ := hv.notes h.nodup_names (Node.mem_names_of_mem_uses ht)
  rw [← h.addresses_eq.2]
  refine hfinish.trans ?_
  have hclean := h.errors_finish hv
  obtain ⟨c, node⟩ := v
  cases node with
  | function f | stmt s => cases ht
  | expr e =>
    have hparts : t ∉ e.parts.flatMap Node.names := by
      have hnodup := hv.sublist_names.nodup h.nodup_names
      rw [Node.names_eq, List.nodup_append', List.nodup_append'] at hnodup
      exact fun hmem ↦ hnodup.2.1.2.2 hmem ht
    rw [Visit.finish_eq] at hclean ⊢
    have hself : (Node.expr e).close c.surroundings (c.walk e.parts) = (c.walk e.parts).use t :=
      Expr.resolveSelf_eq_use hclean ht
    have hnotes := (c.walked e.parts).notes t hparts
    have hscopes := c.scopes_walk_parts (List.Subset.refl e.parts)
    show ((Node.expr e).close c.surroundings (c.walk e.parts)).notes t = _
    rw [hself, notes_use_self, hnotes, hstart, distance?_congr hscopes]
    rfl

variable {d : Distances}

/-- Only names of the program have distances. -/
theorem mem_names_of_mem (h : Accepted index source program addresses) {a : Address}
    (ha : a ∈ addresses) : a.token ∈ stmtsNames program := by
  refine Decidable.byContradiction fun hnot ↦ ?_
  have hnotes := (Context.outermost.walked (program.map .stmt)).notes a.token
    (by rwa [← stmtsNames_eq])
  rw [← h.addresses_eq.2] at ha
  have hmem : a ∈ program.walked.notes a.token := List.mem_filter.2 ⟨ha, by simp⟩
  rw [show program.walked.notes a.token = [] from hnotes] at hmem
  cases hmem

/-- **The table gives the distance that the walk sees at a use of a name.** -/
theorem find?_extend (h : Accepted index source program addresses) (hv : Walks program v)
    (ht : t ∈ v.node.uses) (hd : d.find? t.index = none) :
    (d.extend addresses).find? t.index = v.start.distance? t.lexeme := by
  have hindex : addresses.filter (·.token.index == t.index) = addresses.filter (·.token == t) := by
    refine List.filter_congr fun a ha ↦ ?_
    rw [Bool.eq_iff_iff, beq_iff_eq, beq_iff_eq]
    refine ⟨Scan.eq_of_index_eq (h.mem_tokens (h.mem_names_of_mem ha)) ?_, congrArg Token.index⟩
    exact h.mem_tokens (hv.names_subset (Node.mem_names_of_mem_uses ht))
  rw [Distances.find?_extend, hindex, h.filter_token hv ht, hd]
  cases v.start.distance? t.lexeme <;> rfl

/-- The table keeps the distances in other sources. -/
theorem find?_extend_of_not_mem (h : Accepted index source program addresses) {i : Nat}
    (hi : i < index ∨ (Scan.ofSource index source).nextIndex ≤ i) :
    (d.extend addresses).find? i = d.find? i := by
  refine Distances.find?_extend_of_forall_ne d fun a ha heq ↦ ?_
  have hmem := h.mem_tokens (h.mem_names_of_mem ha)
  have hle := Scan.le_index hmem
  have hlt := Scan.index_lt_nextIndex hmem
  omega

end Accepted

end AliasScript
