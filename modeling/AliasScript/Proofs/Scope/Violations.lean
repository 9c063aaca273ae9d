import AliasScript.Proofs.Scope.Lawful
import AliasScript.Proofs.Scope.Place

/-!
# What scopes do not allow

Which places of a program break a rule about scopes is said from the path to them alone: by the
nearest class and the functions on the way, and by what stands before in the same block or function.
Nothing is kept or restored on the way down, and no scope is open.

The walk reports **exactly the violations**, each once, in the order of the places
(`Program.errors_eq_violations`). Its flags and its open scopes agree with the path wherever it
comes to (`Context.Follows`), behind an error as well.
-/

namespace AliasScript

/-! ### Violations -/

namespace Path

/-- The kind of the nearest class around. -/
def inClass : Path → ClassContext
  | top _ => .outside
  | inside _ (.stmt (.classDecl _ none _ _)) _ => .plain
  | inside _ (.stmt (.classDecl _ (some _) _ _)) _ => .derived
  | inside outer _ _ => outer.inClass

/-- Some function or method is around. -/
def inFunction : Path → Bool
  | top _ => false
  | inside _ (.function _) _ => true
  | inside outer _ _ => outer.inFunction

/-- The names declared before in the same block or function. A function declares its parameters in
the scope of its body; a program is no scope, so names may be declared in it again. -/
def declared : Path → List Token
  | inside _ (.function f) index =>
    f.parameters.getD [] ++ (f.body.take index).filterMap Stmt.declared?
  | inside _ (.stmt (.block body)) index => (body.take index).filterMap Stmt.declared?
  | _ => []

end Path

/-- A name that was declared before. -/
def redeclaration (before : List Token) (name : Token) : List ScopeError :=
  if name.lexeme ∈ before.map Token.lexeme then [⟨name, .redeclared⟩] else []

/-- The names that were declared before, or stand before in the list. -/
def redeclarations (before : List Token) : List Token → List ScopeError
  | [] => []
  | name :: rest => redeclaration before name ++ redeclarations (before ++ [name]) rest

/-- **What is wrong with a node itself**, at the end of a path. -/
def Node.violations (path : Path) : Node → List ScopeError
  | .expr (.this keyword) =>
    match path.inClass with
    | .outside => [⟨keyword, .thisOutsideClass⟩]
    | _ => []
  | .expr (.super keyword _) =>
    match path.inClass with
    | .outside => [⟨keyword, .superOutsideClass⟩]
    | .plain => [⟨keyword, .superWithoutSuperclass⟩]
    | .derived => []
  | .expr _ => []
  | .function f => redeclarations [] (f.parameters.getD [])
  | .stmt (.var name _) => redeclaration path.declared name
  | .stmt (.ret keyword _) =>
    if path.inFunction then [] else [⟨keyword, .returnOutsideFunction⟩]
  | .stmt (.classDecl name superclass _ _) =>
    redeclaration path.declared name ++
      (superclass.toList.filter (·.lexeme = name.lexeme)).map (⟨·, .inheritsItself⟩)
  | .stmt _ => []

/-- What is wrong at a place. -/
def Place.violations (p : Place) : List ScopeError :=
  p.node.violations p.path

/-- What is wrong at some places. -/
def violationsAt (places : List Place) : List ScopeError :=
  places.flatMap Place.violations

/-- All that is wrong with a program. -/
def Program.violations (program : Program) : List ScopeError :=
  violationsAt program.places

@[simp] theorem violationsAt_nil : violationsAt [] = [] := rfl

@[simp] theorem violationsAt_cons (p : Place) (places : List Place) :
    violationsAt (p :: places) = p.violations ++ violationsAt places :=
  List.flatMap_cons

@[simp] theorem violationsAt_append (places places' : List Place) :
    violationsAt (places ++ places') = violationsAt places ++ violationsAt places' :=
  List.flatMap_append

/-! ### Declaring names -/

namespace Resolution

/-- The names in the innermost scope are those declared before. Outside of all scopes there are
none. -/
def Knows (r : Resolution) (before : List Token) : Prop :=
  ∀ x, x ∈ r.scopes.headD [] ↔ x ∈ before.map Token.lexeme

variable {r r' : Resolution} {before : List Token}

/-- What is known of names depends on scopes alone. -/
theorem Knows.congr (h : r.Knows before) (hscopes : r'.scopes = r.scopes) : r'.Knows before := by
  unfold Knows
  rw [hscopes]
  exact h

/-- In a new scope no name is declared. -/
theorem knows_enter (r : Resolution) : (r.enter []).Knows [] := by
  intro x
  rfl

/-- A declaration reports its name if it was declared before in the same scope. -/
theorem errors_declare (h : r.Knows before) (name : Token) :
    (r.declare name).errors.toList = r.errors.toList ++ redeclaration before name := by
  have hname := h name.lexeme
  unfold declare redeclaration
  cases hscopes : r.scopes with
  | nil =>
    rw [hscopes] at hname
    rw [if_neg (fun hmem ↦ nomatch hname.2 hmem), List.append_nil]
  | cons scope outer =>
    rw [hscopes, List.headD_cons] at hname
    simp only [List.contains_iff_mem, hname]
    split
    · exact Array.toList_push
    · exact (List.append_nil _).symm

/-- From then on the name is known to be declared. -/
theorem knows_declare (h : r.Knows before) (hopen : r.scopes ≠ []) (name : Token) :
    (r.declare name).Knows (before ++ [name]) ∧ (r.declare name).scopes ≠ [] := by
  cases hscopes : r.scopes with
  | nil => exact absurd hscopes hopen
  | cons scope outer =>
    obtain ⟨scope', hdeclared, hmem⟩ := scopes_declare name hscopes
    refine ⟨fun x ↦ ?_, by simp [hdeclared]⟩
    have hx := h x
    rw [hscopes, List.headD_cons] at hx
    rw [hdeclared, List.headD_cons, hmem, hx, List.map_append, List.mem_append]
    simp [or_comm]

/-- Names declared one after the other. -/
theorem declareAll_eq (h : r.Knows before) (hopen : r.scopes ≠ []) (names : List Token) :
    (names.foldl declare r).errors.toList = r.errors.toList ++ redeclarations before names ∧
      (names.foldl declare r).Knows (before ++ names) ∧ (names.foldl declare r).scopes ≠ [] := by
  induction names generalizing r before with
  | nil => exact ⟨(List.append_nil _).symm, (List.append_nil before).symm ▸ h, hopen⟩
  | cons name rest ih =>
    obtain ⟨hknows, hopen'⟩ := knows_declare h hopen name
    obtain ⟨herrors, hknows', hopen''⟩ := ih hknows hopen'
    refine ⟨?_, ?_, hopen''⟩
    · rw [List.foldl_cons, herrors, errors_declare h, List.append_assoc]
      rfl
    · rw [List.append_assoc] at hknows'
      exact hknows'

/-- A use of a name reports nothing. -/
theorem errors_use (r : Resolution) (name : Token) : (r.use name).errors = r.errors := by
  unfold use
  split <;> rfl

end Resolution

open Resolution

/-! ### The walk and the path -/

/-- **What the walk has at hand agrees with the path.** The names in the innermost scope matter
where the node declares one. -/
structure Context.Follows (c : Context) (path : Path) (node : Node) : Prop where
  inFunction : c.surroundings.inFunction = path.inFunction
  inClass : c.surroundings.inClass = path.inClass
  knows : ∀ s, node = .stmt s → s.declared?.isSome → c.start.Knows path.declared

/-- Statements add the names that they declare to the innermost scope. -/
theorem Context.knows_walk {ss : List Stmt} {before : List Token} (c : Context)
    (hss : StmtsStratified ss) (h : c.start.Knows before) (hopen : c.start.scopes ≠ []) :
    (c.walk (ss.map .stmt)).Knows (before ++ ss.filterMap Stmt.declared?) ∧
      (c.walk (ss.map .stmt)).scopes ≠ [] := by
  induction ss generalizing c before with
  | nil => exact ⟨(List.append_nil before).symm ▸ h, hopen⟩
  | cons s rest ih =>
    have hfinish := s.scopes_finish hss.1 c
    have hstep : (Visit.mk c (.stmt s)).finish.Knows (before ++ s.declared?.toList) ∧
        (Visit.mk c (.stmt s)).finish.scopes ≠ [] := by
      cases hname : s.declared? with
      | none =>
        rw [hname] at hfinish
        exact ⟨(List.append_nil before).symm ▸ h.congr hfinish, hfinish ▸ hopen⟩
      | some name =>
        rw [hname] at hfinish
        obtain ⟨hknows, hopen'⟩ := knows_declare h hopen name
        exact ⟨hknows.congr hfinish, hfinish ▸ hopen'⟩
    have hnames : (s :: rest).filterMap Stmt.declared? =
        s.declared?.toList ++ rest.filterMap Stmt.declared? := by
      cases hname : s.declared? <;> simp [hname]
    have hrest := ih (c.behind [.stmt s]) hss.2 hstep.1 hstep.2
    rw [List.append_assoc, ← hnames] at hrest
    exact hrest

/-- Only a function or a block has declarations right inside. -/
theorem Node.Stratified.cases_of_declares {node : Node} (h : node.Stratified) {s : Stmt}
    (hs : .stmt s ∈ node.parts) (hdeclares : s.declared?.isSome) :
    (∃ f, node = .function f) ∨ ∃ body, node = .stmt (.block body) := by
  cases node with
  | expr e => exact absurd rfl (Expr.ne_stmt_of_mem_parts hs s)
  | function f => exact .inl ⟨f, rfl⟩
  | stmt s' =>
    refine .inr (Classical.byContradiction fun hne ↦ ?_)
    have hbranch := Stmt.Stratified.branch h (fun body heq ↦ hne ⟨body, heq ▸ rfl⟩) hs
    rw [Stmt.declared?_eq_none hbranch] at hdeclares
    cases hdeclares

/-- The first statements of a stratified list are stratified. -/
theorem StmtsStratified.take {ss : List Stmt} (h : StmtsStratified ss) (i : Nat) :
    StmtsStratified (ss.take i) := by
  induction ss generalizing i with
  | nil => rwa [List.take_nil]
  | cons s rest ih =>
    cases i with
    | zero => exact trivial
    | succ i => exact ⟨h.1, ih h.2 i⟩

namespace Context.Follows

variable {c : Context} {path : Path} {node n : Node} {i : Nat}

/-- Statements behind others in a scope that is open. -/
theorem knows_behind {ss : List Stmt} {before : List Token} (hss : StmtsStratified ss)
    (h : c.start.Knows before) (hopen : c.start.scopes ≠ []) (i : Nat) :
    (c.behind ((ss.map Node.stmt).take i)).start.Knows
      (before ++ (ss.take i).filterMap Stmt.declared?) := by
  rw [← List.map_take]
  exact (c.knows_walk (hss.take i) h hopen).1

/-- **The walk agrees with the path at the parts of a node**, if it does at the node. -/
theorem part (h : c.Follows path node) (hnode : node.Stratified) (hn : node.parts[i]? = some n) :
    ((Visit.mk c node).entered.behind (node.parts.take i)).Follows (.inside path node i) n where
  inFunction := by
    cases node with
    | expr e => exact h.inFunction
    | function f => rfl
    | stmt s =>
      cases s with
      | classDecl name superclass methods classMethods => cases superclass <;> exact h.inFunction
      | _ => exact h.inFunction
  inClass := by
    cases node with
    | expr e => exact h.inClass
    | function f => exact h.inClass
    | stmt s =>
      cases s with
      | classDecl name superclass methods classMethods => cases superclass <;> rfl
      | _ => exact h.inClass
  knows := by
    rintro s rfl hdeclares
    rcases hnode.cases_of_declares (List.mem_of_getElem? hn) hdeclares with ⟨f, rfl⟩ | ⟨body, rfl⟩
    · obtain ⟨-, hknows, hopen⟩ := declareAll_eq (knows_enter c.start) (List.cons_ne_nil _ _)
        (f.parameters.getD [])
      exact knows_behind (c := (Visit.mk c (.function f)).entered)
        (Function.Stratified.body hnode) hknows hopen i
    · have hknows : (c.atParts (.block body)).start.Knows [] := knows_enter c.start
      exact knows_behind hnode hknows (List.cons_ne_nil _ _) i

end Context.Follows

/-! ### The errors of the walk -/

/-- What the walk reports before the parts of a function or a statement. -/
theorem Context.Follows.errors_entered {c : Context} {path : Path} {node : Node}
    (h : c.Follows path node) (hnode : ∀ e, node ≠ .expr e) :
    (Visit.mk c node).entered.start.errors.toList =
      c.start.errors.toList ++ node.violations path := by
  cases node with
  | expr e => exact absurd rfl (hnode e)
  | function f =>
    exact (declareAll_eq (knows_enter c.start) (List.cons_ne_nil _ _) (f.parameters.getD [])).1
  | stmt s =>
    cases s with
    | var name initial => exact errors_declare (h.knows _ rfl rfl) name
    | ret keyword value =>
      show (if _ then _ else _ : Resolution).errors.toList = _ ++ (if _ then _ else _)
      rw [h.inFunction]
      split
      · exact (List.append_nil _).symm
      · exact Array.toList_push
    | classDecl name superclass methods classMethods =>
      have hdeclared := errors_declare (h.knows _ rfl rfl) name
      cases superclass with
      | none =>
        refine hdeclared.trans ?_
        simp [Node.violations]
      | some superclass =>
        show (((c.atSuperclass _ name superclass).start.use superclass).errors).toList = _
        rw [errors_use]
        unfold Context.atSuperclass
        by_cases heq : name.lexeme = superclass.lexeme
        · simp [heq, Node.violations, Resolution.report, hdeclared]
        · simp [heq, Ne.symm heq, Node.violations, hdeclared]
    | _ => exact (List.append_nil _).symm

/-- Behind its parts only an expression may report something, and then it has no parts. -/
theorem Node.errors_close (k : Surroundings) (node : Node) (hnode : ∀ e, node ≠ .expr e)
    (r : Resolution) : (node.close k r).errors = r.errors := by
  cases node with
  | expr e => exact absurd rfl (hnode e)
  | function f => rfl
  | stmt s =>
    cases s with
    | classDecl name superclass methods classMethods => cases superclass <;> rfl
    | _ => rfl

/-- What the walk reports for an expression itself. -/
theorem Expr.errors_resolveSelf {k : Surroundings} {path : Path} (h : k.inClass = path.inClass)
    (e : Expr) (r : Resolution) :
    (e.resolveSelf k r).errors.toList = r.errors.toList ++ (Node.expr e).violations path := by
  cases e with
  | «variable» name | assign name value =>
    rw [resolveSelf, errors_use]
    exact (List.append_nil _).symm
  | this keyword =>
    cases hclass : path.inClass with
    | outside =>
      simp only [resolveSelf, Node.violations, h, hclass]
      exact Array.toList_push
    | plain | derived => simp only [resolveSelf, Node.violations, h, hclass, errors_use,
        List.append_nil]
  | super keyword method =>
    cases hclass : path.inClass with
    | outside | plain =>
      simp only [resolveSelf, Node.violations, h, hclass]
      exact Array.toList_push
    | derived => simp only [resolveSelf, Node.violations, h, hclass, errors_use, List.append_nil]
  | _ => exact (List.append_nil _).symm

/-- An expression with parts has nothing wrong with itself. -/
theorem Expr.violations_or_parts (e : Expr) (path : Path) :
    (Node.expr e).violations path = [] ∨ e.parts = [] := by
  cases e <;> first | exact .inl rfl | exact .inr rfl

/-- Nodes side by side report what is wrong with each of them. -/
theorem Context.errors_walk {nodes : List Node} (paths : Nat → Path) (c : Context)
    (h : ∀ i n, nodes[i]? = some n →
      (Visit.mk (c.behind (nodes.take i)) n).finish.errors.toList =
        (c.behind (nodes.take i)).start.errors.toList ++ violationsAt (n.places (paths i))) :
    (c.walk nodes).errors.toList =
      c.start.errors.toList ++ violationsAt (placesOf paths nodes) := by
  induction nodes generalizing c paths with
  | nil => exact (List.append_nil _).symm
  | cons node rest ih =>
    have hfirst := h 0 node rfl
    have hrest := ih (fun i ↦ paths (i + 1)) (c.behind [node]) fun i n hn ↦ h (i + 1) n hn
    rw [placesOf_cons, violationsAt_append, ← List.append_assoc]
    exact hrest.trans (congrArg (· ++ _) hfirst)

/-- **The walk over a node reports what is wrong in it**, and nothing else. -/
theorem Context.Follows.errors_finish {c : Context} {path : Path} {node : Node}
    (h : c.Follows path node) (hnode : node.Stratified) :
    (Visit.mk c node).finish.errors.toList =
      c.start.errors.toList ++ violationsAt (node.places path) := by
  have step : Hereditary fun node ↦ node.Stratified → ∀ c path, Context.Follows c path node →
      (Visit.mk c node).finish.errors.toList =
        c.start.errors.toList ++ violationsAt (node.places path) := by
    intro node ih hnode c path h
    have hparts := Context.errors_walk (.inside path node) (Visit.mk c node).entered
      fun i n hn ↦ ih n (List.mem_of_getElem? hn) (hnode.part (List.mem_of_getElem? hn)) _ _
        (h.part hnode hn)
    rw [Visit.finish_eq, Node.places_eq, violationsAt_cons]
    cases node with
    | expr e =>
      rw [Node.close, Expr.errors_resolveSelf h.inClass]
      refine (congrArg (· ++ _) hparts).trans ?_
      rcases e.violations_or_parts path with hnone | hnone
      · simp [Place.violations, hnone, Visit.entered]
      · simp [Place.violations, Node.parts, hnone, Visit.entered]
    | function f =>
      rw [Node.errors_close _ _ (by simp), hparts, h.errors_entered (by simp), List.append_assoc]
      rfl
    | stmt s =>
      rw [Node.errors_close _ _ (by simp), hparts, h.errors_entered (by simp), List.append_assoc]
      rfl
  exact node.induct step hnode c path h

/-- Outside of all scopes names may be declared again. -/
theorem Context.follows_top (ss : List Stmt) {i : Nat} {n : Node} :
    (Context.outermost.behind ((ss.map Node.stmt).take i)).Follows (.top i) n where
  inFunction := rfl
  inClass := rfl
  knows s _ _ := by
    have houter : SameOuter .empty (Context.outermost.walk ((ss.map Node.stmt).take i)) :=
      Context.sameOuter_walk _ fun n _ c ↦ Visit.keepsScopes ⟨c, n⟩
    have hnone := List.length_eq_zero_iff.1 houter.2
    intro x
    rw [Context.behind, hnone]
    rfl

/-- **The walk over a program reports its violations.** -/
theorem Program.errors_eq_violations {program : Program} (h : StmtsStratified program) :
    (resolveStmts .none program .empty).errors.toList = program.violations := by
  rw [resolveStmts_eq]
  refine (Context.errors_walk .top Context.outermost fun i n hn ↦ ?_).trans
    (List.nil_append _)
  obtain ⟨s, hs, rfl⟩ : ∃ s, program[i]? = some s ∧ Node.stmt s = n := by
    simpa [List.getElem?_map] using hn
  exact (Context.follows_top program).errors_finish (h.mem (List.mem_of_getElem? hs))

/-- **A program that is rejected has exactly the errors of its places**, in the order of the walk.
-/
theorem Program.eq_violations_of_error {program : Program} (h : StmtsStratified program)
    {errors : List ScopeError} (hrejected : program.addresses = .error errors) :
    errors = program.violations := by
  rw [← errors_eq_violations h]
  unfold addresses at hrejected
  dsimp only at hrejected
  split at hrejected
  · cases hrejected
  · cases hrejected
    rfl

/-- **A parsed program is accepted if it has no violation, and otherwise exactly its violations are
reported.** They are read off its places, of which each is counted once. -/
theorem Program.addresses_violations {tokens : List Token} {eof : Token} {program : Program}
    (h : Program.parse tokens eof = .ok program) :
    program.places.Nodup ∧ (∀ p, p ∈ program.places ↔ program.Stands p) ∧
      ((∃ addresses, program.addresses = .ok addresses) ↔
        ∀ p, program.Stands p → p.violations = []) ∧
      ∀ errors, program.addresses = .error errors →
        errors = program.places.flatMap Place.violations := by
  have hstratified := (Program.says_of_parse h).1
  have hnone : (resolveStmts .none program .empty).errors.isEmpty ↔
      ∀ p, program.Stands p → p.violations = [] := by
    rw [Array.isEmpty_iff, ← Array.toList_eq_nil_iff, Program.errors_eq_violations hstratified,
      Program.violations, violationsAt, List.flatMap_eq_nil_iff]
    simp only [Program.mem_places_iff]
  refine ⟨program.nodup_places, fun p ↦ Program.mem_places_iff, ?_, fun errors hrejected ↦
    Program.eq_violations_of_error hstratified hrejected⟩
  rw [← hnone]
  unfold Program.addresses
  dsimp only
  split
  · next haccepted => exact ⟨fun _ ↦ haccepted, fun _ ↦ ⟨_, rfl⟩⟩
  · next hrejected =>
    exact ⟨fun ⟨_, hok⟩ ↦ (by cases hok), fun haccepted ↦ absurd haccepted hrejected⟩

/-- The theorem at `return this`, where both words are out of place. -/
theorem Program.addresses_violations_return_this :
    let word : Kind → String → Nat → Token := fun kind text n ↦ ⟨kind, text, 1, 0, n, .nil⟩
    let keyword := word .returnWord "return" 0
    let receiver := word .thisWord "this" 1
    let program : Program := [.ret keyword (some (.this receiver))]
    Program.parse [keyword, receiver] (word .eof "" 2) = .ok program ∧
      program.addresses =
        .error [⟨keyword, .returnOutsideFunction⟩, ⟨receiver, .thisOutsideClass⟩] ∧
      ∃ p, program.Stands p ∧ p.violations ≠ [] := by
  refine ⟨rfl, rfl, ?_⟩
  obtain ⟨-, -, haccepted, -⟩ := @Program.addresses_violations
    [⟨.returnWord, "return", 1, 0, 0, .nil⟩, ⟨.thisWord, "this", 1, 0, 1, .nil⟩]
    ⟨.eof, "", 1, 0, 2, .nil⟩ _ rfl
  by_contra hnone
  simp only [not_exists, not_and, not_not] at hnone
  obtain ⟨addresses, hok⟩ := haccepted.2 hnone
  cases hok

end AliasScript
