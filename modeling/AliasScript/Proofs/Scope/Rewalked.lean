import AliasScript.Proofs.Program.Reparsed
import AliasScript.Proofs.Scope.Walk

/-!
# Walking over programs that are alike

The walk over scopes looks at the spelling of names and at nothing else of their tokens. So programs
that are alike are walked over side by side: the same distances are noted for uses of names that are
alike, and errors of the same causes at tokens that are alike (`Program.resolve_alike`).

A node that a walk comes to is like itself if all uses of names are that the walk comes to
(`Walks.alike_self`).
-/

namespace AliasScript

/-! ### What the walk finds -/

/-- The same distance for uses that are alike. -/
structure Address.Alike (L : Likeness) (a a' : Address) : Prop where
  token : L.use a.token a'.token
  distance : a.distance = a'.distance

/-- Errors of the same cause at tokens that are alike. -/
structure ScopeError.Alike (L : Likeness) (e e' : ScopeError) : Prop where
  token : L.mark e.token e'.token
  cause : e.cause = e'.cause

/-- Two walks have the same scopes open and have found what is alike. -/
structure Resolution.Alike (L : Likeness) (r r' : Resolution) : Prop where
  scopes : r.scopes = r'.scopes
  addresses : List.Forall₂ (Address.Alike L) r.addresses.toList r'.addresses.toList
  errors : List.Forall₂ (ScopeError.Alike L) r.errors.toList r'.errors.toList

namespace Resolution.Alike

variable {L : Likeness} {r r' : Resolution} (h : r.Alike L r') {t t' : Token}

include h

/-- The same errors are reported, at tokens that are alike. -/
theorem report (ht : L.mark t t') (cause : ScopeCause) :
    (r.report t cause).Alike L (r'.report t' cause) := by
  refine ⟨h.scopes, h.addresses, ?_⟩
  simp only [Resolution.report, Array.toList_push]
  exact List.rel_append h.errors (.cons ⟨ht, rfl⟩ .nil)

theorem enter (names : List String) : (r.enter names).Alike L (r'.enter names) :=
  ⟨congrArg (names :: ·) h.scopes, h.addresses, h.errors⟩

theorem leave : r.leave.Alike L r'.leave :=
  ⟨congrArg List.tail h.scopes, h.addresses, h.errors⟩

/-- The same name is declared, or reported on both sides. -/
theorem declare (ht : L.mark t t') : (r.declare t).Alike L (r'.declare t') := by
  unfold Resolution.declare
  rw [h.scopes, L.lexeme_eq ht]
  split
  · exact h
  · split
    · exact h.report ht _
    · exact ⟨rfl, h.addresses, h.errors⟩

/-- **A use of a name gets the same distance on both sides.** -/
theorem use (ht : L.use t t') : (r.use t).Alike L (r'.use t') := by
  unfold Resolution.use Resolution.distance?
  rw [h.scopes, L.lexeme_eq (L.mark_of_use ht)]
  split
  · refine ⟨rfl, ?_, h.errors⟩
    simp only [Array.toList_push]
    exact List.rel_append h.addresses (.cons ⟨ht, rfl⟩ .nil)
  · exact h

/-- Parameters are declared one after the other. -/
theorem declareAll {ts ts' : List Token} (hts : List.Forall₂ L.mark ts ts') :
    (ts.foldl Resolution.declare r).Alike L (ts'.foldl Resolution.declare r') := by
  induction hts generalizing r r' with
  | nil => exact h
  | cons ht _ ih => exact ih (h.declare ht)

/-- A condition that does not depend on tokens is the same on both sides. -/
theorem ite {p : Prop} [Decidable p] {q q' : Resolution} (hq : q.Alike L q') :
    (if p then r else q).Alike L (if p then r' else q') := by
  split
  · exact h
  · exact hq

end Resolution.Alike

/-! ### The walk -/

/-- Nodes that are alike. -/
inductive Node.Alike (L : Likeness) : Node → Node → Prop
  | expr {e e' : Expr} : e.Alike L e' → Node.Alike L (.expr e) (.expr e')
  | function {f f' : Function} : f.Alike L f' → Node.Alike L (.function f) (.function f')
  | stmt {s s' : Stmt} : s.Alike L s' → Node.Alike L (.stmt s) (.stmt s')

/-- The node is walked over like every node that is like it. -/
def Node.RewalksAlike (L : Likeness) (node : Node) : Prop :=
  ∀ (k : Surroundings) {node' : Node} {r r' : Resolution}, node.Alike L node' → r.Alike L r' →
    (node.resolve k r).Alike L (node'.resolve k r')

section Walk

variable {L : Likeness} {k : Surroundings} {r r' : Resolution}

/-- A list of expressions is walked over alike if each of them is. -/
theorem resolveExprs_alike {es es' : List Expr} (hes : List.Forall₂ (Expr.Alike L) es es')
    (h : ∀ e ∈ es, (Node.expr e).RewalksAlike L) (hr : r.Alike L r') :
    (resolveExprs k es r).Alike L (resolveExprs k es' r') := by
  induction hes generalizing r r' with
  | nil => exact hr
  | cons he _ ih =>
    exact ih (fun e he ↦ h e (List.mem_cons_of_mem _ he)) (h _ List.mem_cons_self k (.expr he) hr)

/-- A list of functions likewise. -/
theorem resolveFunctions_alike {fs fs' : List Function}
    (hfs : List.Forall₂ (Function.Alike L) fs fs')
    (h : ∀ f ∈ fs, (Node.function f).RewalksAlike L) (hr : r.Alike L r') :
    (resolveFunctions k fs r).Alike L (resolveFunctions k fs' r') := by
  induction hfs generalizing r r' with
  | nil => exact hr
  | cons hf _ ih =>
    exact ih (fun f hf ↦ h f (List.mem_cons_of_mem _ hf))
      (h _ List.mem_cons_self k (.function hf) hr)

/-- A list of statements likewise. -/
theorem resolveStmts_alike {ss ss' : List Stmt} (hss : List.Forall₂ (Stmt.Alike L) ss ss')
    (h : ∀ s ∈ ss, (Node.stmt s).RewalksAlike L) (hr : r.Alike L r') :
    (resolveStmts k ss r).Alike L (resolveStmts k ss' r') := by
  induction hss generalizing r r' with
  | nil => exact hr
  | cons hs _ ih =>
    exact ih (fun s hs ↦ h s (List.mem_cons_of_mem _ hs)) (h _ List.mem_cons_self k (.stmt hs) hr)

/-- An expression is walked over alike if its parts are. -/
theorem Expr.rewalksAlike {e : Expr} (h : ∀ n ∈ e.parts, n.RewalksAlike L) :
    (Node.expr e).RewalksAlike L := by
  intro k node' r r' halike hr
  cases halike with | expr halike => ?_
  have hpart {e₁ e₁' : Expr} (hmem : Node.expr e₁ ∈ e.parts) (he : e₁.Alike L e₁')
      {r r' : Resolution} (hr : r.Alike L r') : (e₁.resolve k r).Alike L (e₁'.resolve k r') :=
    h _ hmem k (.expr he) hr
  simp only [Node.resolve]
  cases halike with
  | literal => exact hr
  | «variable» hname => exact hr.use hname
  | this hkeyword =>
    simp only [Expr.resolve]
    split
    · exact hr.report (L.mark_of_use hkeyword) _
    · exact hr.use hkeyword
  | super hkeyword _ =>
    simp only [Expr.resolve]
    split
    · exact hr.report (L.mark_of_use hkeyword) _
    · exact hr.report (L.mark_of_use hkeyword) _
    · exact hr.use hkeyword
  | array _ helements =>
    exact resolveExprs_alike helements (fun e he ↦ h _ (by simpa [Expr.parts] using he)) hr
  | grouping hinner | unary _ hinner | reference _ hinner | get hinner _ =>
    exact hpart (by simp [Expr.parts]) hinner hr
  | function hf => exact h _ (by simp [Expr.parts]) k (.function hf) hr
  | binary hleft _ hright | logical hleft _ hright =>
    exact hpart (by simp [Expr.parts]) hright (hpart (by simp [Expr.parts]) hleft hr)
  | ternary hcondition _ hwhenTrue hwhenFalse =>
    exact hpart (by simp [Expr.parts]) hwhenFalse
      (hpart (by simp [Expr.parts]) hwhenTrue (hpart (by simp [Expr.parts]) hcondition hr))
  | assign hname hvalue => exact (hpart (by simp [Expr.parts]) hvalue hr).use hname
  | call hcallee _ harguments =>
    exact resolveExprs_alike harguments (fun e he ↦ h _ (by simpa [Expr.parts] using .inr he))
      (hpart (by simp [Expr.parts]) hcallee hr)
  | set hobject _ hvalue =>
    exact hpart (by simp [Expr.parts]) hobject (hpart (by simp [Expr.parts]) hvalue hr)
  | subscript hobject _ hindex =>
    exact hpart (by simp [Expr.parts]) hindex (hpart (by simp [Expr.parts]) hobject hr)
  | setElement hobject _ hindex hvalue =>
    exact hpart (by simp [Expr.parts]) hvalue
      (hpart (by simp [Expr.parts]) hindex (hpart (by simp [Expr.parts]) hobject hr))

/-- So is a function, which enters a scope and leaves it. -/
theorem Function.rewalksAlike {f : Function} (h : ∀ n ∈ (Node.function f).parts, n.RewalksAlike L) :
    (Node.function f).RewalksAlike L := by
  intro k node' r r' halike hr
  cases halike with | function halike => ?_
  cases halike with | mk _ hparameters hbody => ?_
  have hdeclared {ps ps' : Option (List Token)} (hps : Option.Rel (List.Forall₂ L.mark) ps ps') :
      ((ps.getD []).foldl Resolution.declare (r.enter [])).Alike L
        ((ps'.getD []).foldl Resolution.declare (r'.enter [])) := by
    cases hps with
    | none => exact hr.enter []
    | some hps => exact (hr.enter []).declareAll hps
  refine (resolveStmts_alike hbody (fun s hs ↦ h _ ?_) (hdeclared hparameters)).leave
  exact List.mem_map_of_mem hs

/-- So is a statement, whose declaration is made at the same time. -/
theorem Stmt.rewalksAlike {s : Stmt} (h : ∀ n ∈ s.parts, n.RewalksAlike L) :
    (Node.stmt s).RewalksAlike L := by
  intro k node' r r' halike hr
  cases halike with | stmt halike => ?_
  have hexpr {e e' : Expr} (hmem : Node.expr e ∈ s.parts) (he : e.Alike L e')
      {r r' : Resolution} (hr : r.Alike L r') : (e.resolve k r).Alike L (e'.resolve k r') :=
    h _ hmem k (.expr he) hr
  have hstmt {s₁ s₁' : Stmt} (hmem : Node.stmt s₁ ∈ s.parts) (hs : s₁.Alike L s₁')
      {r r' : Resolution} (hr : r.Alike L r') : (s₁.resolve k r).Alike L (s₁'.resolve k r') :=
    h _ hmem k (.stmt hs) hr
  simp only [Node.resolve]
  cases halike with
  | expression hvalue => exact hexpr (by simp [Stmt.parts]) hvalue hr
  | block hbody =>
    exact (resolveStmts_alike hbody (fun s hs ↦ h _ (by simpa [Stmt.parts] using hs))
      (hr.enter [])).leave
  | var hname hinitial =>
    cases hinitial with
    | none => exact hr.declare hname
    | some he => exact hexpr (by simp [Stmt.parts]) he (hr.declare hname)
  | ifElse _ hcondition hwhenTrue hwhenFalse =>
    have hfirst := hstmt (by simp [Stmt.parts]) hwhenTrue
      (hexpr (by simp [Stmt.parts]) hcondition hr)
    cases hwhenFalse with
    | none => exact hfirst
    | some hs => exact hstmt (by simp [Stmt.parts]) hs hfirst
  | loop _ hcondition hbody =>
    exact hstmt (by simp [Stmt.parts]) hbody (hexpr (by simp [Stmt.parts]) hcondition hr)
  | ret hkeyword hvalue =>
    cases hvalue with
    | none => exact hr.ite (hr.report hkeyword _)
    | some he => exact hexpr (by simp [Stmt.parts]) he (hr.ite (hr.report hkeyword _))
  | importModule _ hname => exact hexpr (by simp [Stmt.parts]) hname hr
  | classDecl hname hsuperclass hmethods hclassMethods =>
    have hclass {k : Surroundings} {r r' : Resolution} (hr : r.Alike L r') :=
      resolveFunctions_alike (k := k) hclassMethods
        (fun f hf ↦ h _ (by simpa [Stmt.parts] using .inr hf))
        (resolveFunctions_alike (k := k) hmethods
          (fun f hf ↦ h _ (by simpa [Stmt.parts] using .inl hf)) hr)
    cases hsuperclass with
    | none => exact (hclass ((hr.declare hname).enter _)).leave
    | some ht =>
      simp only [Stmt.resolve, L.lexeme_eq hname, L.lexeme_eq (L.mark_of_use ht)]
      have hdeclared := hr.declare hname
      refine (hclass (((Resolution.Alike.use ?_ ht).enter _).enter _)).leave.leave
      exact (hdeclared.report (L.mark_of_use ht) _).ite hdeclared

/-- **Nodes that are alike are walked over alike.** -/
theorem Node.rewalksAlike (node : Node) : node.RewalksAlike L := by
  refine node.induct fun node h ↦ ?_
  cases node with
  | expr e => exact Expr.rewalksAlike h
  | function f => exact Function.rewalksAlike h
  | stmt s => exact Stmt.rewalksAlike h

end Walk

/-! ### Programs -/

namespace Diagnostic

/-- Diagnostics of the same cause, on the same line or at tokens that are alike. -/
inductive Alike (L : Likeness) : Diagnostic → Diagnostic → Prop
  | lexical {e : LexicalError} : Alike L (.lexical e) (.lexical e)
  | grammar {e e' : GrammarError} : e.Alike L e' → Alike L (.grammar e) (.grammar e')
  | scope {e e' : ScopeError} : e.Alike L e' → Alike L (.scope e) (.scope e')

end Diagnostic

/-- Programs that are alike, with the same distances for uses of names that are alike. -/
structure Resolved.Alike (L : Likeness) (resolved resolved' : Resolved) : Prop where
  program : List.Forall₂ (Stmt.Alike L) resolved.program resolved'.program
  addresses : List.Forall₂ (Address.Alike L) resolved.addresses resolved'.addresses

/-- **Programs that are alike have errors or distances that are alike.** -/
theorem Program.addresses_alike {L : Likeness} {program program' : Program}
    (h : List.Forall₂ (Stmt.Alike L) program program') :
    Except.Both (List.Forall₂ (ScopeError.Alike L)) (List.Forall₂ (Address.Alike L))
      program.addresses program'.addresses := by
  have hstart : Resolution.empty.Alike L .empty := ⟨rfl, .nil, .nil⟩
  have hwalk := resolveStmts_alike (k := .none) h (fun s _ ↦ (Node.stmt s).rewalksAlike) hstart
  have hempty := hwalk.errors.length_eq
  simp only [Array.length_toList] at hempty
  simp only [Program.addresses, Array.isEmpty_iff_size_eq_zero, hempty]
  split
  · exact .ok hwalk.addresses
  · exact .error hwalk.errors

/-- **Programs that are alike are resolved alike.** -/
theorem Program.resolve_alike {L : Likeness} {program program' : Program}
    (h : List.Forall₂ (Stmt.Alike L) program program') :
    Except.Both (List.Forall₂ (Diagnostic.Alike L)) (Resolved.Alike L) program.resolve
      program'.resolve := by
  have haddresses := addresses_alike h
  unfold Program.resolve
  generalize program.addresses = found at haddresses
  generalize program'.addresses = found' at haddresses
  cases haddresses with
  | ok haddresses => exact .ok ⟨h, haddresses⟩
  | error herrors =>
    refine .error (List.forall₂_map_left_iff.2 (List.forall₂_map_right_iff.2 ?_))
    exact herrors.imp fun _ _ ↦ .scope

/-! ### Nodes that are like themselves -/

/-- The walk comes to the nodes right inside. -/
theorem Walks.part {program : Program} {c : Context} {node part : Node}
    (h : Walks program ⟨c, node⟩) (hpart : part ∈ node.parts) : ∃ c', Walks program ⟨c', part⟩ := by
  obtain ⟨before, after, hparts⟩ := List.append_of_mem hpart
  exact ⟨_, .inside h (Context.mem_inOrder.2 ⟨before, after, hparts, rfl⟩)⟩

theorem option_rel_self {α : Type} {R : α → α → Prop} {x : Option α} (h : ∀ a ∈ x, R a a) :
    Option.Rel R x x := by
  cases x with
  | none => exact .none
  | some a => exact .some (h a rfl)

section Self

variable {L : Likeness} (hmark : ∀ t, L.mark t t)

include hmark

/-- An expression is like itself if its uses and its parts are. -/
theorem Expr.alike_self {e : Expr} (huses : ∀ t ∈ e.uses, L.use t t)
    (h : ∀ n ∈ e.parts, n.Alike L n) : e.Alike L e := by
  have hpart (e₁ : Expr) (hmem : Node.expr e₁ ∈ e.parts) : e₁.Alike L e₁ := by
    cases h _ hmem with | expr he => exact he
  cases e with
  | literal value => exact .literal
  | «variable» name => exact .variable (huses name (by simp [Expr.uses]))
  | this keyword => exact .this (huses keyword (by simp [Expr.uses]))
  | super keyword method => exact .super (huses keyword (by simp [Expr.uses])) (hmark method)
  | array bracket elements =>
    exact .array (hmark bracket)
      (List.forall₂_same.2 fun e he ↦ hpart e (by simpa [Expr.parts] using he))
  | grouping inner => exact .grouping (hpart inner (by simp [Expr.parts]))
  | function declaration =>
    cases h (.function declaration) (by simp [Expr.parts]) with | function hf => exact .function hf
  | unary operator operand => exact .unary (hmark operator) (hpart operand (by simp [Expr.parts]))
  | reference operator target =>
    exact .reference (hmark operator) (hpart target (by simp [Expr.parts]))
  | binary left operator right =>
    exact .binary (hpart left (by simp [Expr.parts])) (hmark operator)
      (hpart right (by simp [Expr.parts]))
  | logical left operator right =>
    exact .logical (hpart left (by simp [Expr.parts])) (hmark operator)
      (hpart right (by simp [Expr.parts]))
  | ternary condition question whenTrue whenFalse =>
    exact .ternary (hpart condition (by simp [Expr.parts])) (hmark question)
      (hpart whenTrue (by simp [Expr.parts])) (hpart whenFalse (by simp [Expr.parts]))
  | assign name value =>
    exact .assign (huses name (by simp [Expr.uses])) (hpart value (by simp [Expr.parts]))
  | call callee paren arguments =>
    exact .call (hpart callee (by simp [Expr.parts])) (hmark paren)
      (List.forall₂_same.2 fun e he ↦ hpart e (by simpa [Expr.parts] using .inr he))
  | get object name => exact .get (hpart object (by simp [Expr.parts])) (hmark name)
  | set object name value =>
    exact .set (hpart object (by simp [Expr.parts])) (hmark name)
      (hpart value (by simp [Expr.parts]))
  | subscript object bracket index =>
    exact .subscript (hpart object (by simp [Expr.parts])) (hmark bracket)
      (hpart index (by simp [Expr.parts]))
  | setElement object bracket index value =>
    exact .setElement (hpart object (by simp [Expr.parts])) (hmark bracket)
      (hpart index (by simp [Expr.parts])) (hpart value (by simp [Expr.parts]))

/-- So is a function, whose own tokens are no uses. -/
theorem Function.alike_self {f : Function} (h : ∀ n ∈ (Node.function f).parts, n.Alike L n) :
    f.Alike L f := by
  obtain ⟨name, parameters, body⟩ := f
  refine .mk (option_rel_self fun t _ ↦ hmark t)
    (option_rel_self fun ts _ ↦ List.forall₂_same.2 fun t _ ↦ hmark t)
    (List.forall₂_same.2 fun s hs ↦ ?_)
  cases h (.stmt s) (List.mem_map_of_mem hs) with | stmt hs => exact hs

/-- So is a statement, where the name of a superclass is a use. -/
theorem Stmt.alike_self {s : Stmt} (h : ∀ n ∈ s.parts, n.Alike L n)
    (hsuperclass : ∀ name superclass methods classMethods,
      s = .classDecl name (some superclass) methods classMethods → L.use superclass superclass) :
    s.Alike L s := by
  have hexpr (e : Expr) (hmem : Node.expr e ∈ s.parts) : e.Alike L e := by
    cases h _ hmem with | expr he => exact he
  have hstmt (s₁ : Stmt) (hmem : Node.stmt s₁ ∈ s.parts) : s₁.Alike L s₁ := by
    cases h _ hmem with | stmt hs => exact hs
  have hfunction (f : Function) (hmem : Node.function f ∈ s.parts) : f.Alike L f := by
    cases h _ hmem with | function hf => exact hf
  cases s with
  | expression value => exact .expression (hexpr value (by simp [Stmt.parts]))
  | block body =>
    exact .block (List.forall₂_same.2 fun s hs ↦ hstmt s (by simpa [Stmt.parts] using hs))
  | var name initial =>
    exact .var (hmark name)
      (option_rel_self fun e he ↦ hexpr e (by simpa [Stmt.parts] using he))
  | ifElse keyword condition whenTrue whenFalse =>
    exact .ifElse (hmark keyword) (hexpr condition (by simp [Stmt.parts]))
      (hstmt whenTrue (by simp [Stmt.parts]))
      (option_rel_self fun s hs ↦ hstmt s (by simpa [Stmt.parts] using .inr hs))
  | loop keyword condition body =>
    exact .loop (hmark keyword) (hexpr condition (by simp [Stmt.parts]))
      (hstmt body (by simp [Stmt.parts]))
  | ret keyword value =>
    exact .ret (hmark keyword)
      (option_rel_self fun e he ↦ hexpr e (by simpa [Stmt.parts] using he))
  | importModule keyword name =>
    exact .importModule (hmark keyword) (hexpr name (by simp [Stmt.parts]))
  | classDecl name superclass methods classMethods =>
    refine .classDecl (hmark name) (option_rel_self fun t ht ↦ ?_)
      (List.forall₂_same.2 fun f hf ↦ hfunction f (by simpa [Stmt.parts] using .inl hf))
      (List.forall₂_same.2 fun f hf ↦ hfunction f (by simpa [Stmt.parts] using .inr hf))
    cases ht
    exact hsuperclass _ _ _ _ rfl

/-- A node is like itself if its parts and the names are that it looks up itself. -/
theorem Node.alike_self {node : Node} (h : ∀ n ∈ node.parts, n.Alike L n)
    (huses : ∀ t ∈ node.uses, L.use t t)
    (hsuperclass : ∀ name superclass methods classMethods,
      node = .stmt (.classDecl name (some superclass) methods classMethods) →
        L.use superclass superclass) : node.Alike L node := by
  cases node with
  | expr e => exact .expr (Expr.alike_self hmark huses h)
  | function f => exact .function (Function.alike_self hmark h)
  | stmt s =>
    exact .stmt (Stmt.alike_self hmark h fun _ _ _ _ hs ↦ hsuperclass _ _ _ _ (congrArg _ hs))

/-- **A node is like itself** if the uses of names are that the walk comes to. -/
theorem Walks.alike_self {program : Program}
    (huses : ∀ v, Walks program v → ∀ t ∈ v.node.uses, L.use t t) {c : Context} {node : Node}
    (h : Walks program ⟨c, node⟩) : node.Alike L node := by
  refine node.induct (motive := fun node ↦ ∀ c, Walks program ⟨c, node⟩ → node.Alike L node)
    (fun node ih c h ↦ ?_) c h
  refine Node.alike_self hmark (fun n hn ↦ (h.part hn).elim (ih n hn)) (huses _ h) ?_
  rintro name superclass methods classMethods rfl
  exact huses _ (.superclass rfl h) superclass (by simp [Node.uses, Expr.uses])

omit hmark in
/-- Every node is like itself if every token is. -/
theorem Node.alike_refl (huse : ∀ t, L.use t t) (node : Node) : node.Alike L node :=
  node.induct fun _ ih ↦ alike_self (fun t ↦ L.mark_of_use (huse t)) ih (fun t _ ↦ huse t)
    fun _ superclass _ _ _ ↦ huse superclass

end Self

end AliasScript
