import AliasScript.Proofs.Scope.Addresses

/-!
# What holds at every visit

The walk over an accepted program comes to every node in good order (`Accepted.lawful`): the node is
stratified; the names that the walk has seen in an open scope are among those that the scope
declares; inside a class, the scopes of `this` and `super` are open and nothing else hides these
two names; a declaration stands right in the innermost scope; and a name that is declared but not
yet bound is that of a variable whose initial value the walk is inside of.
-/

namespace AliasScript

open Resolution

/-! ### Stratified nodes -/

/-- The node is stratified. The function of a declaration carries the name that it is declared
under. -/
def Node.Stratified : Node → Prop
  | .expr (.function declaration) => declaration.parameters.isSome ∧ declaration.Stratified
  | .expr e => e.Stratified
  | .function f => f.Stratified
  | .stmt s => s.Stratified

/-- A stratified expression is a stratified node. -/
theorem Expr.Stratified.node {e : Expr} (h : e.Stratified) : (Node.expr e).Stratified := by
  cases e with
  | function declaration => exact h.2
  | _ => exact h

/-- Each expression of a stratified list is stratified. -/
theorem ExprsStratified.mem {es : List Expr} {e : Expr} (h : ExprsStratified es) (he : e ∈ es) :
    e.Stratified := by
  induction es with
  | nil => cases he
  | cons first rest ih =>
    rcases List.mem_cons.1 he with rfl | he
    · exact h.1
    · exact ih h.2.2 he

/-- Each statement of a stratified list is stratified. -/
theorem StmtsStratified.mem {ss : List Stmt} {s : Stmt} (h : StmtsStratified ss) (hs : s ∈ ss) :
    s.Stratified := by
  induction ss with
  | nil => cases hs
  | cons first rest ih =>
    rcases List.mem_cons.1 hs with rfl | hs
    · exact h.1
    · exact ih h.2 hs

/-- Methods that are stratified have names. -/
theorem MethodsStratified.mem {fs : List Function} {f : Function} (h : MethodsStratified fs)
    (hf : f ∈ fs) : (∃ name, f.name = some name) ∧ f.Stratified := by
  induction fs with
  | nil => cases hf
  | cons first rest ih =>
    rcases List.mem_cons.1 hf with rfl | hf
    · exact ⟨⟨_, h.1.choose_spec.1⟩, h.2.1⟩
    · exact ih h.2.2 hf

/-- The body of a stratified function is stratified. -/
theorem Function.Stratified.body {f : Function} (h : f.Stratified) : StmtsStratified f.body := by
  cases f
  exact h.2

/-- Parameters are identifiers. -/
theorem Function.Stratified.kind_parameter {f : Function} (h : f.Stratified) {t : Token}
    (ht : t ∈ f.parameters.getD []) : t.kind = .identifier := by
  cases f with
  | mk name parameters body =>
    cases parameters with
    | none => cases ht
    | some parameters => exact (h.1 parameters rfl).2 t ht

/-- The name that a statement declares is an identifier. -/
theorem Stmt.Stratified.kind_declared {s : Stmt} (h : s.Stratified) {t : Token}
    (ht : s.declared? = some t) : t.kind = .identifier := by
  cases s with
  | var name initial =>
    cases ht
    cases initial with
    | none => exact h
    | some initial => cases initial <;> exact h.1
  | classDecl name superclass methods classMethods =>
    cases ht
    exact h.1
  | _ => cases ht

/-- The initial value of a variable is stratified as a node. -/
theorem Stmt.Stratified.initial {name : Token} {initial : Expr}
    (h : (Stmt.var name (some initial)).Stratified) : (Node.expr initial).Stratified := by
  cases initial with
  | function declaration => exact h.2.2
  | _ => exact h.2

/-- **The parts of a stratified expression are stratified.** -/
theorem Expr.Stratified.part {e : Expr} (h : (Node.expr e).Stratified) {n : Node}
    (hn : n ∈ e.parts) : n.Stratified := by
  cases e with
  | literal | «variable» | this | super => cases hn
  | array bracket elements =>
    obtain ⟨e, he, rfl⟩ := List.mem_map.1 hn
    exact (h.2.mem he).node
  | grouping inner =>
    rw [List.mem_singleton.1 hn]
    exact Expr.Stratified.node h
  | function declaration =>
    rw [List.mem_singleton.1 hn]
    exact h.2
  | unary operator operand | reference operator operand | assign operator operand =>
    rw [List.mem_singleton.1 hn]
    exact h.2.1.node
  | binary left operator right | logical left operator right =>
    obtain ⟨rank, -, hleft, -, hright, -⟩ := h
    simp only [Expr.parts, List.mem_cons, List.not_mem_nil, or_false] at hn
    rcases hn with rfl | rfl
    · exact hleft.node
    · exact hright.node
  | ternary condition question whenTrue whenFalse =>
    obtain ⟨-, hcondition, -, htrue, -, hfalse, -⟩ := h
    simp only [Expr.parts, List.mem_cons, List.not_mem_nil, or_false] at hn
    rcases hn with rfl | rfl | rfl
    · exact hcondition.node
    · exact htrue.node
    · exact hfalse.node
  | call callee paren arguments =>
    obtain ⟨-, hcallee, -, -, harguments⟩ := h
    rcases List.mem_cons.1 hn with rfl | hn
    · exact hcallee.node
    · obtain ⟨e, he, rfl⟩ := List.mem_map.1 hn
      exact (harguments.mem he).node
  | get object name =>
    rw [List.mem_singleton.1 hn]
    exact h.1.node
  | set object name value | subscript value name object =>
    obtain ⟨hfirst, -, -, hsecond, -⟩ := h
    simp only [Expr.parts, List.mem_cons, List.not_mem_nil, or_false] at hn
    rcases hn with rfl | rfl <;> first | exact hfirst.node | exact hsecond.node
  | setElement object bracket index value =>
    obtain ⟨hobject, -, -, hindex, -, hvalue, -⟩ := h
    simp only [Expr.parts, List.mem_cons, List.not_mem_nil, or_false] at hn
    rcases hn with rfl | rfl | rfl
    · exact hobject.node
    · exact hindex.node
    · exact hvalue.node

/-- **The parts of a stratified statement are stratified.** -/
theorem Stmt.Stratified.part {s : Stmt} (h : s.Stratified) {n : Node} (hn : n ∈ s.parts) :
    n.Stratified := by
  cases s with
  | expression value =>
    rw [List.mem_singleton.1 hn]
    exact Expr.Stratified.node h
  | block body =>
    obtain ⟨s, hs, rfl⟩ := List.mem_map.1 hn
    exact StmtsStratified.mem h hs
  | var name initial =>
    cases initial with
    | none => cases hn
    | some initial =>
      rw [List.mem_singleton.1 hn]
      exact Stmt.Stratified.initial h
  | ifElse keyword condition whenTrue whenFalse =>
    cases whenFalse with
    | none =>
      obtain ⟨-, hcondition, htrue, -⟩ := h
      simp only [Stmt.parts, List.mem_cons, Option.toList, List.map_nil, List.not_mem_nil,
        or_false] at hn
      rcases hn with rfl | rfl
      · exact hcondition.node
      · exact htrue
    | some whenFalse =>
      obtain ⟨-, hcondition, htrue, -, -, hfalse, -⟩ := h
      simp only [Stmt.parts, List.mem_cons, Option.toList, List.map_cons, List.map_nil,
        List.not_mem_nil, or_false] at hn
      rcases hn with rfl | rfl | rfl
      · exact hcondition.node
      · exact htrue
      · exact hfalse
  | loop keyword condition body =>
    obtain ⟨-, hcondition, hbody, -⟩ := h
    simp only [Stmt.parts, List.mem_cons, List.not_mem_nil, or_false] at hn
    rcases hn with rfl | rfl
    · exact hcondition.node
    · exact hbody
  | ret keyword value =>
    cases value with
    | none => cases hn
    | some value =>
      rw [List.mem_singleton.1 hn]
      exact h.2.node
  | importModule keyword name =>
    rw [List.mem_singleton.1 hn]
    exact h.2.node
  | classDecl name superclass methods classMethods =>
    obtain ⟨-, -, hmethods, hclassMethods⟩ := h
    obtain ⟨f, hf, rfl⟩ := List.mem_map.1 hn
    rcases List.mem_append.1 hf with hf | hf
    · exact (hmethods.mem hf).2
    · exact (hclassMethods.mem hf).2

/-- Only a block or a function has declarations right inside. -/
theorem Stmt.Stratified.branch {s s' : Stmt} (h : s.Stratified) (hs : ∀ body, s ≠ .block body)
    (hs' : .stmt s' ∈ s.parts) : s'.isDeclaration = false := by
  cases s with
  | block body => exact absurd rfl (hs body)
  | ifElse keyword condition whenTrue whenFalse =>
    cases whenFalse with
    | none =>
      obtain ⟨-, -, -, htrue⟩ := h
      simp only [Stmt.parts, List.mem_cons, reduceCtorEq, Node.stmt.injEq, Option.toList_none,
        List.map_nil, List.not_mem_nil, or_false, false_or] at hs'
      exact hs' ▸ htrue
    | some whenFalse =>
      obtain ⟨-, -, -, htrue, -, -, hfalse⟩ := h
      simp only [Stmt.parts, List.mem_cons, reduceCtorEq, Node.stmt.injEq, Option.toList_some,
        List.map_cons, List.map_nil, List.not_mem_nil, or_false, false_or] at hs'
      rcases hs' with rfl | rfl
      · exact htrue
      · exact hfalse
  | loop keyword condition body =>
    obtain ⟨-, -, -, hbody⟩ := h
    simp only [Stmt.parts, List.mem_cons, reduceCtorEq, Node.stmt.injEq, List.not_mem_nil,
      or_false, false_or] at hs'
    exact hs' ▸ hbody
  | _ => simp [Stmt.parts] at hs'

/-- **What is right inside a stratified node is stratified.** -/
theorem Node.Stratified.part {node : Node} (h : node.Stratified) {n : Node} (hn : n ∈ node.parts) :
    n.Stratified := by
  cases node with
  | expr e => exact Expr.Stratified.part h hn
  | function f =>
    obtain ⟨s, hs, rfl⟩ := List.mem_map.1 hn
    exact (Function.Stratified.body h).mem hs
  | stmt s => exact Stmt.Stratified.part h hn

/-! ### Open scopes and the names seen in them -/

/-- The names that the walk has seen in the scope: those that are bound from the start, and some of
those that it declares. -/
def OpenScope.Fits (o : OpenScope) (names : List String) : Prop :=
  o.scope.bound ⊆ names ∧ names ⊆ o.scope.declares

/-- Neither a block nor a function declares `this` or `super`. -/
def Scope.Plain : Scope → Prop
  | .receiver _ | .superclass _ => True
  | s => "this" ∉ s.declares ∧ "super" ∉ s.declares

/-- The scopes that are open inside a class of a kind. -/
inductive Encloses : ClassContext → List OpenScope → Prop
  | outside (scopes : List OpenScope) : Encloses .outside scopes
  | plain (s : Stmt) (pending : Option Stmt) (scopes : List OpenScope) :
      Encloses .plain (⟨.receiver s, pending⟩ :: scopes)
  | derived (s : Stmt) (pending pending' : Option Stmt) (scopes : List OpenScope) :
      Encloses .derived (⟨.receiver s, pending⟩ :: ⟨.superclass s, pending'⟩ :: scopes)
  | block {context : ClassContext} {scopes : List OpenScope} (body : List Stmt)
      (pending : Option Stmt) :
      Encloses context scopes → Encloses context (⟨.block body, pending⟩ :: scopes)
  | call {context : ClassContext} {scopes : List OpenScope} (f : Function)
      (pending : Option Stmt) :
      Encloses context scopes → Encloses context (⟨.call f, pending⟩ :: scopes)

/-- The statement stands right in the innermost scope, or in the program if no scope is open. -/
def StandsIn (program : Program) : List OpenScope → Stmt → Prop
  | [], s => s ∈ program
  | innermost :: _, s => s ∈ innermost.scope.body

/-- A declaration that is not complete stands right in its scope. -/
structure OpenScope.Lawful (o : OpenScope) : Prop where
  plain : o.scope.Plain
  pending : ∀ s ∈ o.pending, s ∈ o.scope.body

/-- A scope that is just opened has no declaration under way. -/
theorem OpenScope.Lawful.opened {scope : Scope} (h : scope.Plain) :
    OpenScope.Lawful ⟨scope, none⟩ :=
  ⟨h, by rintro _ ⟨⟩⟩

/-- The open scopes of a context are in order. -/
structure Context.Lawful (c : Context) : Prop where
  fits : List.Forall₂ OpenScope.Fits c.scopes c.start.scopes
  each : ∀ o ∈ c.scopes, o.Lawful
  encloses : Encloses c.surroundings.inClass c.scopes

/-- The name of a superclass is looked up before the class is bound; all other names that are
declared and not yet bound are variables whose initial value the node lies in. -/
def Visit.PendingLawful (v : Visit) (s : Stmt) : Prop :=
  (∃ name initial, s = .var name (some initial)) ∨
    ∃ name superclass methods classMethods, s = .classDecl name (some superclass) methods
      classMethods ∧ v.node = .expr (.variable superclass) ∧ name.lexeme ≠ superclass.lexeme

/-- What holds at every visit of the walk over an accepted program. -/
structure Visit.Lawful (program : Program) (v : Visit) : Prop where
  context : v.toContext.Lawful
  stratified : v.node.Stratified
  stands : ∀ s, v.node = .stmt s → s.isDeclaration = true → StandsIn program v.scopes s
  /-- A statement is not inside of a declaration in its own scope. -/
  quiet : ∀ s, v.node = .stmt s → ∀ o ∈ v.scopes.head?, o.pending = none
  pending : ∀ o ∈ v.scopes, ∀ s ∈ o.pending, v.PendingLawful s

/-! ### Declaring names -/

namespace Resolution

variable {r : Resolution} {names : List String} {outer : List (List String)}

/-- Declaring a name adds it to the innermost scope. -/
theorem scopes_declare (name : Token) (h : r.scopes = names :: outer) :
    ∃ names', (r.declare name).scopes = names' :: outer ∧
      ∀ x, x ∈ names' ↔ x = name.lexeme ∨ x ∈ names := by
  simp only [declare, h]
  split
  · next hmem =>
    refine ⟨names, h, fun x ↦ ⟨.inr, ?_⟩⟩
    rintro (rfl | hx)
    · simpa using hmem
    · exact hx
  · exact ⟨name.lexeme :: names, rfl, fun x ↦ List.mem_cons⟩

/-- Declarations add their names to the innermost scope and leave the others. -/
theorem scopes_declareAll (tokens : List Token) (h : r.scopes = names :: outer) :
    ∃ names', (tokens.foldl declare r).scopes = names' :: outer ∧
      ∀ x, x ∈ names' ↔ x ∈ names ∨ x ∈ tokens.map Token.lexeme := by
  induction tokens generalizing r names with
  | nil => exact ⟨names, h, by simp⟩
  | cons t rest ih =>
    obtain ⟨names', hscopes, hmem⟩ := scopes_declare t h
    obtain ⟨names'', hscopes', hmem'⟩ := ih hscopes
    refine ⟨names'', hscopes', fun x ↦ ?_⟩
    simp only [hmem', hmem, List.map_cons, List.mem_cons]
    tauto

end Resolution

section Declaring

variable {program : Program} {scopes : List OpenScope} {s : Stmt} {r : Resolution}

/-- A scope declares the names of the statements right in it. -/
theorem StandsIn.mem_declares {o : OpenScope} {name : Token}
    (h : StandsIn program (o :: scopes) s) (hname : s.declared? = some name) :
    name.lexeme ∈ o.scope.declares :=
  List.mem_append_right _ (List.mem_map.2 ⟨name, List.mem_filterMap.2 ⟨s, h, hname⟩, rfl⟩)

/-- Declaring a name that the innermost scope declares keeps the scopes in order. -/
theorem fits_declare {name : Token} (h : List.Forall₂ OpenScope.Fits scopes r.scopes)
    (hstands : StandsIn program scopes s) (hname : s.declared? = some name) :
    List.Forall₂ OpenScope.Fits scopes (r.declare name).scopes := by
  generalize hscopes : r.scopes = all at h
  cases h with
  | nil =>
    simp only [declare, hscopes]
    exact .nil
  | cons hfits hrest =>
    obtain ⟨names, hdeclare, hmem⟩ := scopes_declare name hscopes
    rw [hdeclare]
    refine .cons ⟨fun x hx ↦ (hmem x).2 (.inr (hfits.1 hx)), fun x hx ↦ ?_⟩ hrest
    rcases (hmem x).1 hx with rfl | hx
    · exact hstands.mem_declares hname
    · exact hfits.2 hx

/-- While a declaration is not complete, the scopes still fit what is seen of names. -/
theorem fits_declaring {names : List (List String)}
    (h : List.Forall₂ OpenScope.Fits scopes names) :
    List.Forall₂ OpenScope.Fits (declaring s scopes) names := by
  cases h with
  | nil => exact .nil
  | cons hfits hrest => exact .cons hfits hrest

/-- Nor does it change which class is around. -/
theorem Encloses.declaring {context : ClassContext} (h : Encloses context scopes) :
    Encloses context (declaring s scopes) := by
  cases h with
  | outside => exact .outside _
  | plain => exact .plain _ _ _
  | derived => exact .derived _ _ _ _
  | block body pending h => exact .block _ _ h
  | call f pending h => exact .call _ _ h

/-- A declaration that stands in its scope may be the one that is not complete. -/
theorem lawful_declaring (h : ∀ o ∈ scopes, o.Lawful) (hs : StandsIn program scopes s) :
    ∀ o ∈ declaring s scopes, o.Lawful := by
  cases scopes with
  | nil => exact h
  | cons innermost outer =>
    obtain ⟨hinnermost, houter⟩ := List.forall_mem_cons.1 h
    refine List.forall_mem_cons.2 ⟨⟨hinnermost.plain, ?_⟩, houter⟩
    rintro _ ⟨⟩
    exact hs

/-- The scopes are the ones before, but for the declaration in the innermost. -/
theorem mem_declaring {o : OpenScope} (h : o ∈ declaring s scopes) :
    o ∈ scopes ∨ ∃ o' ∈ scopes, o = { o' with pending := some s } := by
  cases scopes with
  | nil => cases h
  | cons innermost outer =>
    rcases List.mem_cons.1 h with rfl | h
    · exact .inr ⟨innermost, by simp, rfl⟩
    · exact .inl (List.mem_cons_of_mem _ h)

/-- The parameters of a function are what is seen in its scope before its body. -/
theorem fits_call (f : Function)
    (h : List.Forall₂ OpenScope.Fits scopes r.scopes) :
    List.Forall₂ OpenScope.Fits (⟨.call f, none⟩ :: scopes)
      ((f.parameters.getD []).foldl declare (r.enter [])).scopes := by
  obtain ⟨names, hscopes, hmem⟩ := scopes_declareAll (f.parameters.getD []) (r := r.enter []) rfl
  rw [hscopes]
  refine .cons ⟨fun x hx ↦ (hmem x).2 (.inr hx), fun x hx ↦ ?_⟩ h
  exact List.mem_append_left _ (((hmem x).1 hx).resolve_left List.not_mem_nil)

end Declaring

namespace Context

variable {c : Context}

/-- A node keeps the scopes in order for what comes behind it. -/
theorem Lawful.behind_one (h : c.Lawful) (program : Program) (node : Node)
    (hnode : ∀ s, node = .stmt s →
      s.Stratified ∧ (s.isDeclaration = true → StandsIn program c.scopes s)) :
    (c.behind [node]).Lawful := by
  refine ⟨?_, h.each, h.encloses⟩
  show List.Forall₂ _ _ (Visit.mk c node).finish.scopes
  cases node with
  | expr e => exact (Visit.scopes_finish_expr c e) ▸ h.fits
  | function f => exact (Visit.scopes_finish_function c f) ▸ h.fits
  | stmt s =>
    obtain ⟨hstratified, hstands⟩ := hnode s rfl
    rw [Stmt.scopes_finish s hstratified c]
    cases hdeclared : s.declared? with
    | none => exact h.fits
    | some name =>
      refine fits_declare h.fits (hstands ?_) hdeclared
      cases hdeclaration : s.isDeclaration with
      | true => rfl
      | false => cases hdeclared.symm.trans (Stmt.declared?_eq_none hdeclaration)

/-- Behind nodes that stand in the innermost scope, the context is lawful again. -/
theorem Lawful.behind (h : c.Lawful) (program : Program) {nodes : List Node}
    (hnodes : ∀ s, .stmt s ∈ nodes →
      s.Stratified ∧ (s.isDeclaration = true → StandsIn program c.scopes s)) :
    (c.behind nodes).Lawful := by
  induction nodes generalizing c with
  | nil => exact h
  | cons node rest ih =>
    have hone := h.behind_one program node fun s hs ↦ hnodes s (by simp [hs])
    exact ih hone fun s hs ↦ hnodes s (by simp [hs])

end Context

/-! ### Names of accepted programs -/

/-- The name that a statement declares is one of its names. -/
theorem Stmt.mem_names_of_declared {s : Stmt} {t : Token} (h : s.declared? = some t) :
    t ∈ s.names := by
  cases s with
  | var name initial =>
    cases h
    cases initial <;> simp [Stmt.names]
  | classDecl name superclass methods classMethods =>
    cases h
    simp [Stmt.names]
  | _ => cases h

/-- Names other than `this` and `super`. -/
def Token.Ordinary (t : Token) : Prop :=
  t.lexeme ≠ "this" ∧ t.lexeme ≠ "super"

namespace Accepted

variable {index : Nat} {source : String} {program : Program} {addresses : List Address}

/-- No identifier of an accepted program is called `this` or `super`. -/
theorem ordinary (h : Accepted index source program addresses) {t : Token}
    (ht : t ∈ stmtsNames program) (hkind : t.kind = .identifier) : t.Ordinary := by
  have hspelled := Scan.wellSpelled (h.mem_tokens ht)
  exact ⟨hspelled.lexeme_ne hkind (by decide), hspelled.lexeme_ne hkind (by decide)⟩

/-- The names that the statements of a stratified sequence declare are ordinary ones. -/
theorem ordinary_declared (h : Accepted index source program addresses) {body : List Stmt}
    (hbody : StmtsStratified body) (hnames : stmtsNames body ⊆ stmtsNames program) :
    ∀ t ∈ body.filterMap Stmt.declared?, t.Ordinary := by
  intro t ht
  obtain ⟨s, hs, hdeclared⟩ := List.mem_filterMap.1 ht
  refine h.ordinary (hnames ?_) ((hbody.mem hs).kind_declared hdeclared)
  rw [stmtsNames_eq, List.flatMap_map]
  exact List.mem_flatMap.2 ⟨s, hs, Stmt.mem_names_of_declared hdeclared⟩

end Accepted

/-- So ordinary names do not hide a receiver. -/
theorem not_mem_map_lexeme {tokens : List Token} (h : ∀ t ∈ tokens, t.Ordinary) :
    "this" ∉ tokens.map Token.lexeme ∧ "super" ∉ tokens.map Token.lexeme := by
  constructor <;> rintro hmem <;> obtain ⟨t, ht, heq⟩ := List.mem_map.1 hmem
  · exact (h t ht).1 heq
  · exact (h t ht).2 heq

/-! ### Every visit is lawful -/

namespace Visit

variable {index : Nat} {source : String} {program : Program} {addresses : List Address}
  {v : Visit}

/-- **The scopes that are entered at a node are lawful.** -/
theorem Lawful.entered (h : v.Lawful program) (hp : Accepted index source program addresses)
    (hv : Walks program v) : v.entered.Lawful := by
  have hnames := hv.names_subset
  obtain ⟨hcontext, hstratified, hstands, -, -⟩ := h
  obtain ⟨c, node⟩ := v
  cases node with
  | expr e => exact hcontext
  | function f =>
    refine ⟨fits_call f hcontext.fits, ?_, .call f none hcontext.encloses⟩
    have hparameters : ∀ t ∈ f.parameters.getD [], t.Ordinary := fun t ht ↦
      hp.ordinary (hnames (by rw [Node.names_eq]; simp [Node.heads, ht]))
        (Function.Stratified.kind_parameter hstratified ht)
    have hbody := hp.ordinary_declared (Function.Stratified.body hstratified) fun t ht ↦
      hnames (by rw [Node.names_eq]; simp [Node.heads, Node.parts, ← stmtsNames_eq, ht])
    refine List.forall_mem_cons.2 ⟨.opened ?_, hcontext.each⟩
    simp only [Scope.Plain, Scope.declares, Scope.bound, Scope.body, ← List.map_append]
    exact not_mem_map_lexeme fun t ht ↦ (List.mem_append.1 ht).elim (hparameters t) (hbody t)
  | stmt s =>
    cases s with
    | block body =>
      refine ⟨.cons ⟨List.Subset.refl _, List.nil_subset _⟩ hcontext.fits, ?_,
        .block body none hcontext.encloses⟩
      refine List.forall_mem_cons.2 ⟨.opened ?_, hcontext.each⟩
      exact not_mem_map_lexeme (hp.ordinary_declared hstratified hnames)
    | var name initial =>
      have hstands := hstands _ rfl rfl
      exact ⟨fits_declaring (fits_declare hcontext.fits hstands rfl),
        lawful_declaring hcontext.each hstands, hcontext.encloses.declaring⟩
    | ret keyword value =>
      exact ⟨c.scopes_atParts_ret keyword value ▸ hcontext.fits, hcontext.each,
        hcontext.encloses⟩
    | classDecl name superclass methods classMethods =>
      -- The scope of the receiver is opened inside that of the superclass, if there is one.
      have hdeclare := fits_declare hcontext.fits (hstands _ rfl rfl) rfl
      have hthis (s : Stmt) : OpenScope.Fits ⟨.receiver s, none⟩ ["this"] :=
        ⟨List.Subset.refl _, List.Subset.refl _⟩
      have hsuper (s : Stmt) : OpenScope.Fits ⟨.superclass s, none⟩ ["super"] :=
        ⟨List.Subset.refl _, List.Subset.refl _⟩
      cases superclass with
      | none =>
        exact ⟨.cons (hthis _) hdeclare,
          List.forall_mem_cons.2 ⟨.opened trivial, hcontext.each⟩, .plain _ none _⟩
      | some superclass =>
        rw [← c.scopes_atSuperclass (.classDecl name (some superclass) methods classMethods) name
          superclass, ← scopes_use _ superclass] at hdeclare
        exact ⟨.cons (hthis _) (.cons (hsuper _) hdeclare),
          List.forall_mem_cons.2 ⟨.opened trivial,
            List.forall_mem_cons.2 ⟨.opened trivial, hcontext.each⟩⟩, .derived _ none none _⟩
    | _ => exact hcontext

/-- A declaration right inside a node stands right in the scope that the node opens. -/
theorem Lawful.standsIn_entered (h : v.Lawful program) {s : Stmt} (hs : .stmt s ∈ v.node.parts)
    (hdeclaration : s.isDeclaration = true) : StandsIn program v.entered.scopes s := by
  have hstratified := h.stratified
  obtain ⟨c, node⟩ := v
  cases node with
  | expr e => exact absurd rfl (Expr.ne_stmt_of_mem_parts hs s)
  | function f =>
    obtain ⟨s', hs', heq⟩ := List.mem_map.1 hs
    cases heq
    exact hs'
  | stmt parent =>
    cases parent with
    | block body =>
      obtain ⟨s', hs', heq⟩ := List.mem_map.1 hs
      cases heq
      exact hs'
    | _ =>
      have hbranch := Stmt.Stratified.branch hstratified nofun hs
      exact absurd (hbranch.symm.trans hdeclaration) (by decide)

/-- Right at the start of a scope no declaration is pending. -/
theorem Lawful.quiet_entered (h : v.Lawful program) {s : Stmt} (hs : .stmt s ∈ v.node.parts) :
    ∀ o ∈ v.entered.scopes.head?, o.pending = none := by
  have hquiet := h.quiet
  obtain ⟨c, node⟩ := v
  cases node with
  | expr e => exact absurd rfl (Expr.ne_stmt_of_mem_parts hs s)
  | function f =>
    rintro o ⟨⟩
    rfl
  | stmt parent =>
    cases parent with
    | block body =>
      rintro o ⟨⟩
      rfl
    | ifElse | loop => exact hquiet _ rfl
    | _ => simp [Node.parts, Stmt.parts] at hs

/-- Inside a node nothing is pending but variables. -/
theorem Lawful.pending_entered (h : v.Lawful program) {o : OpenScope} (ho : o ∈ v.entered.scopes)
    {s : Stmt} (hs : s ∈ o.pending) (hparts : v.node.parts ≠ []) :
    ∃ name initial, s = .var name (some initial) := by
  -- A class is pending only at the name of its superclass, and that has no parts.
  have hold : ∀ o ∈ v.scopes, ∀ s ∈ o.pending, ∃ name initial, s = .var name (some initial) := by
    intro o ho s hs
    rcases h.pending o ho s hs with hvar | ⟨_, _, _, _, _, hnode, _⟩
    · exact hvar
    · exact absurd (by rw [hnode]; rfl) hparts
  obtain ⟨c, node⟩ := v
  cases node with
  | expr e => exact hold o ho s hs
  | function f =>
    rcases List.mem_cons.1 ho with rfl | ho
    · cases hs
    · exact hold o ho s hs
  | stmt parent =>
    cases parent with
    | block body =>
      rcases List.mem_cons.1 ho with rfl | ho
      · cases hs
      · exact hold o ho s hs
    | var name initial =>
      rcases mem_declaring ho with ho | ⟨o', ho', rfl⟩
      · exact hold o ho s hs
      · cases hs
        cases initial with
        | none => exact absurd rfl hparts
        | some initial => exact ⟨name, initial, rfl⟩
    | classDecl name superclass methods classMethods =>
      cases superclass with
      | none =>
        rcases List.mem_cons.1 ho with rfl | ho
        · cases hs
        · exact hold o ho s hs
      | some superclass =>
        rcases List.mem_cons.1 ho with rfl | ho
        · cases hs
        · rcases List.mem_cons.1 ho with rfl | ho
          · cases hs
          · exact hold o ho s hs
    | _ => exact hold o ho s hs

end Visit

namespace Accepted

variable {index : Nat} {source : String} {program : Program} {addresses : List Address}
  {v : Visit}

/-- The outermost statements are visited lawfully. -/
theorem lawful_top (h : Accepted index source program addresses)
    (hv : v ∈ Context.outermost.inOrder (program.map .stmt)) : v.Lawful program := by
  obtain ⟨before, after, hnodes, hcontext⟩ := Context.mem_inOrder.1 hv
  have hmem : ∀ s, .stmt s ∈ program.map Node.stmt → s ∈ program := by simp
  have houtermost : Context.outermost.Lawful := ⟨.nil, by simp [Context.outermost], .outside _⟩
  have hnode : v.node ∈ program.map Node.stmt := by simp [hnodes]
  refine ⟨?_, ?_, ?_, ?_, ?_⟩
  · rw [hcontext]
    refine houtermost.behind program fun s hs ↦ ?_
    have hs' := hmem s (by simp [hnodes, hs])
    exact ⟨h.stratified.mem hs', fun _ ↦ hs'⟩
  · obtain ⟨s, hs, hs'⟩ := List.mem_map.1 hnode
    rw [← hs']
    exact h.stratified.mem hs
  · intro s hs _
    rw [hcontext]
    exact hmem s (hs ▸ hnode)
  · rw [hcontext]
    simp [Context.outermost, Context.behind]
  · rw [hcontext]
    simp [Context.outermost, Context.behind]

/-- A class that is accepted does not inherit from itself. -/
theorem lexeme_ne_superclass (h : Accepted index source program addresses) {c : Context} {s : Stmt}
    {name superclass : Token}
    (hv : Walks program ⟨c.atSuperclass s name superclass, .expr (.variable superclass)⟩) :
    name.lexeme ≠ superclass.lexeme := by
  intro heq
  have hfinish := h.errors_finish hv
  have hle := (walked_use (c.atSuperclass s name superclass).start superclass).errors
  have hstart : 0 < (c.atSuperclass s name superclass).start.errors.size := by
    simp [Context.atSuperclass, heq, report]
  exact absurd (Nat.lt_of_lt_of_le hstart hle) (Nat.not_lt.2 (Nat.le_of_eq hfinish))

/-- **The walk over an accepted program comes to every node in good order.** -/
theorem lawful (h : Accepted index source program addresses) (hv : Walks program v) :
    v.Lawful program := by
  induction hv with
  | top hmem => exact h.lawful_top hmem
  | @inside v w hv hmem ih =>
    obtain ⟨before, after, hparts, hcontext⟩ := Context.mem_inOrder.1 hmem
    have hpart : ∀ n, n ∈ before ∨ n = w.node → n ∈ v.node.parts := by
      rintro n (hn | rfl)
      · simp [hparts, hn]
      · simp [hparts]
    -- The context of a part is that inside of the node behind the parts before it.
    refine ⟨?_, ih.stratified.part (hpart _ (.inr rfl)), ?_, ?_, ?_⟩
    · rw [hcontext]
      exact (ih.entered h hv).behind program fun s hs ↦
        ⟨ih.stratified.part (hpart _ (.inl hs)), ih.standsIn_entered (hpart _ (.inl hs))⟩
    · intro s hs hdeclaration
      rw [hcontext]
      exact ih.standsIn_entered (hpart _ (.inr hs.symm)) hdeclaration
    · intro s hs
      rw [hcontext]
      exact ih.quiet_entered (hpart _ (.inr hs.symm))
    · intro o ho s hs
      rw [hcontext] at ho
      exact .inl (ih.pending_entered ho hs (by simp [hparts]))
  | @superclass c s name superclass methods classMethods hs hv ih =>
    -- Here the class is declared and not bound, but the name that is used is another one.
    have hne := h.lexeme_ne_superclass (.superclass hs hv)
    obtain ⟨hcontext, hstratified, hstands, -, hpending⟩ := ih
    subst hs
    have hstands := hstands _ rfl rfl
    have hfits := fits_declare hcontext.fits hstands rfl
    rw [← c.scopes_atSuperclass (.classDecl name (some superclass) methods classMethods) name
      superclass] at hfits
    refine ⟨⟨fits_declaring hfits, lawful_declaring hcontext.each hstands,
      hcontext.encloses.declaring⟩, ?_, nofun, nofun, ?_⟩
    · exact hstratified.2.1 superclass rfl
    · intro o ho s hs
      rcases mem_declaring ho with ho | ⟨o', ho', rfl⟩
      · rcases hpending o ho s hs with hvar | ⟨_, _, _, _, _, hnode, _⟩
        · exact .inl hvar
        · cases hnode
      · cases hs
        exact .inr ⟨name, superclass, methods, classMethods, rfl, rfl, hne⟩

/-- A `return` of an accepted program stands in a function. -/
theorem inFunction_of_ret (h : Accepted index source program addresses) {c : Context}
    {keyword : Token} {value : Option Expr} (hv : Walks program ⟨c, .stmt (.ret keyword value)⟩) :
    c.surroundings.inFunction = true := by
  refine Decidable.byContradiction fun hnot ↦ ?_
  have hfinish := h.errors_finish hv
  have hle := ((c.atParts (.ret keyword value)).walked (Stmt.ret keyword value).parts).errors
  have hstart : 0 < (c.atParts (.ret keyword value)).start.errors.size := by
    simp [Context.atParts, hnot, report]
  rw [Visit.finish_eq] at hfinish
  exact absurd (Nat.lt_of_lt_of_le hstart hle) (Nat.not_lt.2 (Nat.le_of_eq hfinish))

/-- A name of an accepted program is not declared again in the scope that declares it. -/
theorem not_mem_of_declared (h : Accepted index source program addresses) {c : Context} {s : Stmt}
    {name : Token} (hv : Walks program ⟨c, .stmt s⟩) (hs : s.declared? = some name)
    {names : List String} {outer : List (List String)} (hscopes : c.start.scopes = names :: outer) :
    name.lexeme ∉ names := by
  intro hmem
  -- A second declaration is an error on entering the statement, and no step takes an error back.
  have hdeclare : 0 < (c.start.declare name).errors.size := by
    simp [declare, hscopes, hmem, report]
  have hentered : (c.start.declare name).errors.size ≤
      (Visit.mk c (.stmt s)).entered.start.errors.size := by
    cases s with
    | var name' initial =>
      cases hs
      exact Nat.le_refl _
    | classDecl name' superclass methods classMethods =>
      cases hs
      cases superclass with
      | none => exact Nat.le_refl _
      | some superclass =>
        refine Nat.le_trans ?_ (walked_use (c.atSuperclass _ name superclass).start
          superclass).errors
        simp only [Context.atSuperclass]
        split
        · exact (walked_report _ _ _).errors
        · exact Nat.le_refl _
    | _ => cases hs
  have hfinish := h.errors_finish hv
  rw [Visit.finish_eq] at hfinish
  have hparts := ((Visit.mk c (.stmt s)).entered.walked s.parts).errors
  have hclose := (Visit.walked_close c.surroundings (.stmt s)
    ((Visit.mk c (.stmt s)).entered.walk s.parts)).errors
  exact absurd hfinish (Nat.ne_of_gt
    (Nat.lt_of_lt_of_le hdeclare (Nat.le_trans hentered (Nat.le_trans hparts hclose))))

/-- `this` stands inside a class. -/
theorem inClass_of_this (h : Accepted index source program addresses) {c : Context}
    {keyword : Token} (hv : Walks program ⟨c, .expr (.this keyword)⟩) :
    c.surroundings.inClass ≠ .outside := by
  intro hout
  have hfinish := h.errors_finish hv
  simp [Visit.finish, Node.resolve, Expr.resolve, hout, report] at hfinish

/-- `super` stands inside a class with a superclass. -/
theorem inClass_of_super (h : Accepted index source program addresses) {c : Context}
    {keyword method : Token} (hv : Walks program ⟨c, .expr (.super keyword method)⟩) :
    c.surroundings.inClass = .derived := by
  have hfinish := h.errors_finish hv
  simp only [Visit.finish, Node.resolve, Expr.resolve] at hfinish
  split at hfinish
  · simp [report] at hfinish
  · simp [report] at hfinish
  · assumption

end Accepted

/-! ### The scopes of a class -/

section Classes

variable {context : ClassContext} {scopes : List OpenScope} {names : List (List String)}

/-- A block or a function hides neither `this` nor `super`. -/
theorem OpenScope.Fits.not_contains {o : OpenScope} {seen : List String} (h : o.Fits seen)
    {name : String} (hname : name ∉ o.scope.declares) : seen.contains name = false := by
  simpa using fun hmem ↦ hname (h.2 hmem)

/-- A name that is bound in a scope is seen there. -/
theorem OpenScope.Fits.contains {o : OpenScope} {seen : List String} (h : o.Fits seen)
    {name : String} (hname : name ∈ o.scope.bound) : seen.contains name = true := by
  simpa using h.1 hname

/-- **Inside a class, `this` is that of the innermost class.** -/
theorem Encloses.this (h : Encloses context scopes) (hcontext : context ≠ .outside)
    (hfits : List.Forall₂ OpenScope.Fits scopes names)
    (hplain : ∀ o ∈ scopes, o.scope.Plain) :
    ∃ d s pending, names.findIdx? (·.contains "this") = some d ∧
      scopes[d]? = some ⟨.receiver s, pending⟩ := by
  induction h generalizing names with
  | outside => exact absurd rfl hcontext
  | plain s pending scopes | derived s pending pending' scopes =>
    cases hfits with
    | cons hfits hrest =>
      refine ⟨0, s, pending, ?_, rfl⟩
      rw [List.findIdx?_cons, hfits.contains (List.mem_singleton.2 rfl)]
      rfl
  | block body pending h ih | call f pending h ih =>
    cases hfits with
    | cons hfits hrest =>
      obtain ⟨hthis, hplain⟩ := List.forall_mem_cons.1 hplain
      obtain ⟨d, s, pending, hfind, hscope⟩ := ih hcontext hrest hplain
      refine ⟨d + 1, s, pending, ?_, hscope⟩
      rw [List.findIdx?_cons, hfits.not_contains hthis.1, hfind]
      rfl

/-- **Inside a class with a superclass, `super` is that of the innermost class, one scope outside
of its `this`.** -/
theorem Encloses.super (h : Encloses context scopes) (hcontext : context = .derived)
    (hfits : List.Forall₂ OpenScope.Fits scopes names)
    (hplain : ∀ o ∈ scopes, o.scope.Plain) :
    ∃ d s pending pending', names.findIdx? (·.contains "super") = some (d + 1) ∧
      names.findIdx? (·.contains "this") = some d ∧
      scopes[d]? = some ⟨.receiver s, pending⟩ ∧
      scopes[d + 1]? = some ⟨.superclass s, pending'⟩ := by
  induction h generalizing names with
  | outside | plain => cases hcontext
  | derived s pending pending' scopes =>
    cases hfits with
    | cons hthis hrest =>
      cases hrest with
      | cons hsuper hrest =>
        refine ⟨0, s, pending, pending', ?_, ?_, rfl, rfl⟩
        · have hnot : "super" ∉ (Scope.receiver s).declares := by
            simp [Scope.declares, Scope.bound, Scope.body]
          rw [List.findIdx?_cons, hthis.not_contains hnot, List.findIdx?_cons,
            hsuper.contains (List.mem_singleton.2 rfl)]
          rfl
        · rw [List.findIdx?_cons, hthis.contains (List.mem_singleton.2 rfl)]
          rfl
  | block body pending h ih | call f pending h ih =>
    cases hfits with
    | cons hfits hrest =>
      obtain ⟨hdeclares, hplain⟩ := List.forall_mem_cons.1 hplain
      -- Neither a block nor a call declares one of the two names: both are one scope further out.
      obtain ⟨d, s, pending, pending', hsuper, hthis, hscopes⟩ := ih hcontext hrest hplain
      refine ⟨d + 1, s, pending, pending', ?_, ?_, hscopes⟩
      · rw [List.findIdx?_cons, hfits.not_contains hdeclares.2, hsuper]
        rfl
      · rw [List.findIdx?_cons, hfits.not_contains hdeclares.1, hthis]
        rfl

end Classes

end AliasScript
