import AliasScript.Proofs.Program.Stratified
import AliasScript.Proofs.Scope.Visit

/-!
# What the walk over scopes leaves behind

The walk over a node notes addresses for names of that node only, and never takes back an error
(`Resolution.Walked`). An expression leaves the open scopes as they were; a statement declares at
most one name, and in the innermost scope (`Stmt.scopes_resolve`).

Both are shown by one induction over the nodes of a tree (`Node.induct`), in which the walk over an
expression is the walk over its parts and then the use of its own name.
-/

namespace AliasScript

/-! ### Induction over nodes -/

section Induct

/-- What holds of a node if it holds of the nodes right inside it. -/
def Hereditary (motive : Node → Prop) : Prop :=
  ∀ node : Node, (∀ n ∈ node.parts, motive n) → motive node

variable {motive : Node → Prop}

mutual

/-- Induction on an expression, with the functions that are nested inside. -/
theorem Expr.node_induct (step : Hereditary motive) : ∀ e : Expr, motive (.expr e)
  | .literal _ | .variable _ | .this _ | .super _ _ => step _ (by simp [Node.parts, Expr.parts])
  | .array _ elements => step _ (by
      simpa [Node.parts, Expr.parts] using exprs_node_induct step elements)
  | .grouping inner | .unary _ inner | .reference _ inner | .assign _ inner | .get inner _ =>
    step _ (by simpa [Node.parts, Expr.parts] using Expr.node_induct step inner)
  | .function declaration => step _ (by
      simpa [Node.parts, Expr.parts] using Function.node_induct step declaration)
  | .binary left _ right | .logical left _ right | .set right _ left | .subscript left _ right =>
    step _ (by
      simpa [Node.parts, Expr.parts] using
        ⟨Expr.node_induct step left, Expr.node_induct step right⟩)
  | .ternary first _ second third | .setElement first _ second third => step _ (by
      simpa [Node.parts, Expr.parts] using
        ⟨Expr.node_induct step first, Expr.node_induct step second, Expr.node_induct step third⟩)
  | .call callee _ arguments => step _ (by
      simpa [Node.parts, Expr.parts] using
        ⟨Expr.node_induct step callee, exprs_node_induct step arguments⟩)

/-- Induction on the expressions of a list. -/
theorem exprs_node_induct (step : Hereditary motive) : ∀ es : List Expr, ∀ e ∈ es, motive (.expr e)
  | [] => by simp
  | e :: rest => by simpa using ⟨Expr.node_induct step e, exprs_node_induct step rest⟩

/-- Induction on a function, whose parts are the statements of its body. -/
theorem Function.node_induct (step : Hereditary motive) : ∀ f : Function, motive (.function f)
  | .mk _ _ body => step _ (by simpa [Node.parts, Function.body] using stmts_node_induct step body)

/-- Induction on the functions of a list. -/
theorem functions_node_induct (step : Hereditary motive) :
    ∀ fs : List Function, ∀ f ∈ fs, motive (.function f)
  | [] => by simp
  | f :: rest => by simpa using ⟨Function.node_induct step f, functions_node_induct step rest⟩

/-- Induction on a statement, with its expressions and its functions. -/
theorem Stmt.node_induct (step : Hereditary motive) : ∀ s : Stmt, motive (.stmt s)
  | .expression value | .var _ (some value) | .ret _ (some value) | .importModule _ value =>
    step _ (by simpa [Node.parts, Stmt.parts] using Expr.node_induct step value)
  | .block body => step _ (by simpa [Node.parts, Stmt.parts] using stmts_node_induct step body)
  | .var _ none | .ret _ none => step _ (by simp [Node.parts, Stmt.parts])
  | .ifElse _ condition whenTrue none => step _ (by
      simpa [Node.parts, Stmt.parts] using
        ⟨Expr.node_induct step condition, Stmt.node_induct step whenTrue⟩)
  | .ifElse _ condition whenTrue (some whenFalse) => step _ (by
      simpa [Node.parts, Stmt.parts] using
        ⟨Expr.node_induct step condition, Stmt.node_induct step whenTrue,
          Stmt.node_induct step whenFalse⟩)
  | .loop _ condition body => step _ (by
      simpa [Node.parts, Stmt.parts] using
        ⟨Expr.node_induct step condition, Stmt.node_induct step body⟩)
  | .classDecl _ _ methods classMethods => step _ (by
      simp only [Node.parts, Stmt.parts, List.map_append, List.mem_append, List.mem_map]
      rintro n (⟨f, hf, rfl⟩ | ⟨f, hf, rfl⟩)
      · exact functions_node_induct step methods f hf
      · exact functions_node_induct step classMethods f hf)

/-- Induction on the statements of a list. -/
theorem stmts_node_induct (step : Hereditary motive) : ∀ ss : List Stmt, ∀ s ∈ ss, motive (.stmt s)
  | [] => by simp
  | s :: rest => by simpa using ⟨Stmt.node_induct step s, stmts_node_induct step rest⟩

end

/-- **What holds of a node if it holds of the nodes right inside it holds of every node.** -/
theorem Node.induct (step : Hereditary motive) (node : Node) : motive node := by
  cases node with
  | expr e => exact Expr.node_induct step e
  | function f => exact Function.node_induct step f
  | stmt s => exact Stmt.node_induct step s

end Induct

/-! ### Addresses and errors -/

namespace Resolution

variable {r r' r'' : Resolution} {names names' : List Token}

/-- The addresses noted for a token. -/
def notes (r : Resolution) (t : Token) : List Address :=
  r.addresses.toList.filter fun a ↦ a.token == t

/-- A walk from one state to another notes addresses for certain names only, and takes back no
error. -/
structure Walked (names : List Token) (r r' : Resolution) : Prop where
  notes : ∀ t, t ∉ names → r'.notes t = r.notes t
  errors : r.errors.size ≤ r'.errors.size

/-- Walks one behind the other note names for both. -/
theorem Walked.trans (h : Walked names r r') (h' : Walked names' r' r'') :
    Walked (names ++ names') r r'' where
  notes t ht := by
    rw [List.mem_append, not_or] at ht
    rw [h'.notes t ht.2, h.notes t ht.1]
  errors := Nat.le_trans h.errors h'.errors

/-- A walk that may note some names may note more. -/
theorem Walked.mono (h : Walked names r r') (hnames : names ⊆ names') : Walked names' r r' :=
  ⟨fun t ht ↦ h.notes t fun hmem ↦ ht (hnames hmem), h.errors⟩

/-- What changes the open scopes only is no walk at all. -/
theorem walked_of_eq (haddresses : r'.addresses = r.addresses) (herrors : r'.errors = r.errors) :
    Walked [] r r' :=
  ⟨fun t _ ↦ by rw [Resolution.notes, Resolution.notes, haddresses],
    Nat.le_of_eq (congrArg Array.size herrors.symm)⟩

/-- Where nothing is walked over, nothing is noted. -/
theorem Walked.refl (r : Resolution) : Walked [] r r :=
  walked_of_eq rfl rfl

/-- Entering a scope notes nothing. -/
theorem walked_enter (r : Resolution) (scope : List String) : Walked [] r (r.enter scope) :=
  walked_of_eq rfl rfl

/-- An error is no note. -/
theorem walked_report (r : Resolution) (t : Token) (cause : ScopeCause) :
    Walked [] r (r.report t cause) :=
  ⟨fun _ _ ↦ rfl, by simp [report]⟩

/-- A declaration notes nothing, since it is no use. -/
theorem walked_declare (r : Resolution) (name : Token) : Walked [] r (r.declare name) := by
  unfold declare
  split
  · exact .refl r
  · split
    · exact walked_report r _ _
    · exact walked_of_eq rfl rfl

/-- A use of a name that is declared in some scope is noted with its distance. -/
theorem notes_use_self (r : Resolution) (name : Token) :
    (r.use name).notes name =
      r.notes name ++ (r.distance? name.lexeme).toList.map (Address.mk name) := by
  unfold use
  split
  · next h => simp [notes, h]
  · next h => simp [h]

/-- A use of a name notes nothing for other names. -/
theorem walked_use (r : Resolution) (name : Token) : Walked [name] r (r.use name) := by
  unfold use
  split
  · refine ⟨fun t ht ↦ ?_, Nat.le_refl _⟩
    have hne : (name == t) = false := by simpa using fun h : name = t ↦ ht (by simp [h])
    simp [notes, hne]
  · exact (Walked.refl r).mono (by simp)

/-- Declarations of several names note nothing either. -/
theorem walked_declareAll (names : List Token) (r : Resolution) :
    Walked [] r (names.foldl declare r) := by
  induction names generalizing r with
  | nil => exact .refl r
  | cons name rest ih => exact (walked_declare r name).trans (ih _)

end Resolution

open Resolution

/-- What an expression notes itself, after its parts. -/
def Expr.resolveSelf (k : Surroundings) : Expr → Resolution → Resolution
  | .variable name, r | .assign name _, r => r.use name
  | .this keyword, r =>
    match k.inClass with
    | .outside => r.report keyword .thisOutsideClass
    | _ => r.use keyword
  | .super keyword _, r =>
    match k.inClass with
    | .outside => r.report keyword .superOutsideClass
    | .plain => r.report keyword .superWithoutSuperclass
    | .derived => r.use keyword
  | _, r => r

/-- What an expression itself notes are its own uses of names. -/
theorem Expr.walked_resolveSelf (k : Surroundings) (e : Expr) (r : Resolution) :
    Walked e.uses r (e.resolveSelf k r) := by
  cases e with
  | «variable» name | assign name value => exact walked_use r name
  | this keyword =>
    simp only [Expr.resolveSelf]
    split
    · exact (walked_report r _ _).mono (by simp)
    · exact walked_use r keyword
  | super keyword method =>
    simp only [Expr.resolveSelf]
    split
    · exact (walked_report r _ _).mono (by simp)
    · exact (walked_report r _ _).mono (by simp)
    · exact walked_use r keyword
  | _ => exact .refl r

/-- What the walk does with a node after its parts. -/
def Node.close (k : Surroundings) : Node → Resolution → Resolution
  | .expr e, r => e.resolveSelf k r
  | .function _, r | .stmt (.block _), r | .stmt (.classDecl _ none _ _), r => r.leave
  | .stmt (.classDecl _ (some _) _ _), r => r.leave.leave
  | .stmt _, r => r

/-- Declaring a class notes nothing, nor does an error at its superclass. -/
theorem Context.walked_atSuperclass (c : Context) (s : Stmt) (name superclass : Token) :
    Walked [] c.start (c.atSuperclass s name superclass).start := by
  show Walked _ _ (if _ then _ else _)
  split
  · exact (walked_declare _ name).trans (walked_report _ _ _)
  · exact walked_declare _ name

namespace Visit

/-- **The walk over a node goes over its parts, and then closes what it opened.** -/
theorem finish_eq (v : Visit) :
    v.finish = v.node.close v.surroundings (v.entered.walk v.node.parts) := by
  obtain ⟨c, node⟩ := v
  cases node with
  | expr e =>
    cases e <;> simp only [finish, Node.resolve, Expr.resolve, resolveExprs_eq] <;> rfl
  | function f =>
    cases f with
    | mk name parameters body =>
      simp only [finish, Node.resolve, Function.resolve, resolveStmts_eq]
      rfl
  | stmt s =>
    cases s with
    | block body =>
      simp only [finish, Node.resolve, Stmt.resolve, resolveStmts_eq]
      rfl
    | var name initial | ret name initial => cases initial <;> rfl
    | ifElse keyword condition whenTrue whenFalse => cases whenFalse <;> rfl
    | classDecl name superclass methods classMethods =>
      cases superclass <;>
        simp only [finish, Node.resolve, Stmt.resolve, resolveFunctions_eq, ← List.foldl_append,
          ← List.map_append] <;> rfl
    | _ => rfl

/-- Before its parts the walk notes addresses for the names there only. -/
theorem walked_entered (v : Visit) : Walked v.node.heads v.start v.entered.start := by
  obtain ⟨c, node⟩ := v
  cases node with
  | expr e => exact .refl _
  | function f =>
    exact ((walked_enter c.start []).trans (walked_declareAll _ _)).mono (List.nil_subset _)
  | stmt s =>
    cases s with
    | block body => exact walked_enter _ _
    | var name initial => exact (walked_declare _ name).mono (List.nil_subset _)
    | ret keyword value =>
      show Walked _ _ (if _ then _ else _)
      split
      · exact .refl _
      · exact walked_report _ _ _
    | classDecl name superclass methods classMethods =>
      cases superclass with
      | none =>
        exact ((walked_declare c.start name).trans (walked_enter _ _)).mono (List.nil_subset _)
      | some superclass =>
        have hnamed :=
          c.walked_atSuperclass (.classDecl name (some superclass) methods classMethods)
          name superclass
        have hentered := (hnamed.trans (walked_use _ superclass)).trans
          ((walked_enter _ ["super"]).trans (walked_enter _ ["this"]))
        exact hentered.mono (by simp [Node.heads])
    | _ => exact .refl _

/-- After its parts the walk notes addresses for the names that the node uses itself. -/
theorem walked_close (k : Surroundings) (node : Node) (r : Resolution) :
    Walked node.uses r (node.close k r) := by
  cases node with
  | expr e => exact e.walked_resolveSelf k r
  | function f => exact walked_of_eq rfl rfl
  | stmt s =>
    cases s with
    | classDecl name superclass methods classMethods =>
      cases superclass <;> exact walked_of_eq rfl rfl
    | _ => exact walked_of_eq rfl rfl

end Visit

/-- The nodes of a list are walked over one behind the other. -/
theorem Context.walked_walk {nodes : List Node} (c : Context)
    (h : ∀ n ∈ nodes, ∀ c : Context, Walked n.names c.start (Visit.mk c n).finish) :
    Walked (nodes.flatMap Node.names) c.start (c.walk nodes) := by
  induction nodes generalizing c with
  | nil => exact .refl _
  | cons node rest ih =>
    exact (h node (by simp) c).trans (ih (c.behind [node]) fun n hn ↦ h n (by simp [hn]))

/-- **The walk over a node notes addresses for names of the node only.** -/
theorem Visit.walked (v : Visit) : Walked v.node.names v.start v.finish := by
  have step : Hereditary fun node ↦
      ∀ c : Context, Walked node.names c.start (Visit.mk c node).finish := by
    intro node ih c
    rw [Node.names_eq, Visit.finish_eq]
    exact (Visit.walked_entered ⟨c, node⟩).trans
      ((Context.walked_walk _ ih).trans (Visit.walked_close _ _ _))
  exact Node.induct step v.node v.toContext

/-- **A walk over nodes notes the names in them, and no others.** -/
theorem Context.walked (c : Context) (nodes : List Node) :
    Walked (nodes.flatMap Node.names) c.start (c.walk nodes) :=
  walked_walk c fun n _ c ↦ Visit.walked ⟨c, n⟩

/-- What the walk notes before and after one of several nodes. -/
theorem Context.walked_of_mem_inOrder {c : Context} {nodes : List Node} {w : Visit}
    (h : w ∈ c.inOrder nodes) :
    ∃ before after, nodes.flatMap Node.names = before ++ (w.node.names ++ after) ∧
      Walked before c.start w.start ∧ Walked after w.finish (c.walk nodes) := by
  obtain ⟨before, after, rfl, hw⟩ := Context.mem_inOrder.1 h
  refine ⟨before.flatMap Node.names, after.flatMap Node.names, by simp, ?_, ?_⟩
  · rw [hw]
    exact c.walked before
  · have hfinish : c.walk (before ++ w.node :: after) =
        (w.toContext.behind [w.node]).walk after := by
      rw [walk_append, hw]
      rfl
    rw [hfinish]
    exact (w.toContext.behind [w.node]).walked after

/-! ### Open scopes -/

namespace Resolution

/-- A walk that has the same scopes open, with the same names in all but the innermost. -/
def SameOuter (r r' : Resolution) : Prop :=
  r'.scopes.tail = r.scopes.tail ∧ r'.scopes.length = r.scopes.length

variable {r r' r'' : Resolution}

/-- Scopes that are the same are the same further out. -/
theorem SameOuter.of_eq (h : r'.scopes = r.scopes) : SameOuter r r' := by
  simp [SameOuter, h]

/-- What is further out stays the same along a walk. -/
theorem SameOuter.trans (h : SameOuter r r') (h' : SameOuter r' r'') : SameOuter r r'' :=
  ⟨h'.1.trans h.1, h'.2.trans h.2⟩

/-- A declaration changes the innermost scope alone. -/
theorem sameOuter_declare (r : Resolution) (name : Token) : SameOuter r (r.declare name) := by
  unfold declare
  split
  · exact .of_eq rfl
  · next h =>
    split
    · exact .of_eq rfl
    · simp [SameOuter, h]

theorem sameOuter_declareAll (names : List Token) (r : Resolution) :
    SameOuter r (names.foldl declare r) := by
  induction names generalizing r with
  | nil => exact .of_eq rfl
  | cons name rest ih => exact (sameOuter_declare r name).trans (ih _)

/-- Closing a scope leaves those open that were open before it. -/
theorem SameOuter.scopes_leave {scope : List String} (h : SameOuter (r.enter scope) r') :
    r'.leave.scopes = r.scopes :=
  h.1

/-- A use of a name changes no scope. -/
@[simp] theorem scopes_use (r : Resolution) (name : Token) : (r.use name).scopes = r.scopes := by
  unfold use
  split <;> rfl

end Resolution

/-- Nothing that an expression does itself changes a scope. -/
theorem Expr.scopes_resolveSelf (k : Surroundings) (e : Expr) (r : Resolution) :
    (e.resolveSelf k r).scopes = r.scopes := by
  cases e with
  | «variable» name | assign name value => exact scopes_use r name
  | this keyword =>
    simp only [Expr.resolveSelf]
    split
    · rfl
    · exact scopes_use r keyword
  | super keyword method =>
    simp only [Expr.resolveSelf]
    split
    · rfl
    · rfl
    · exact scopes_use r keyword
  | _ => rfl

/-- Statements keep the outer scopes; all other nodes keep all of them. -/
def Node.KeepsScopes : Node → Resolution → Resolution → Prop
  | .stmt _, r, r' => SameOuter r r'
  | _, r, r' => r'.scopes = r.scopes

/-- Whatever a node does with scopes, those further out stay. -/
theorem Node.KeepsScopes.sameOuter {node : Node} {r r' : Resolution} (h : node.KeepsScopes r r') :
    SameOuter r r' := by
  cases node with
  | expr e | function f => exact .of_eq h
  | stmt s => exact h

namespace Context

variable {nodes : List Node}

/-- Nodes of a list change the innermost scope at most. -/
theorem sameOuter_walk (c : Context)
    (h : ∀ n ∈ nodes, ∀ c : Context, n.KeepsScopes c.start (Visit.mk c n).finish) :
    SameOuter c.start (c.walk nodes) := by
  induction nodes generalizing c with
  | nil => exact .of_eq rfl
  | cons node rest ih =>
    exact (h node (by simp) c).sameOuter.trans
      (ih (c.behind [node]) fun n hn ↦ h n (by simp [hn]))

/-- If no node changes a scope, neither does the list. -/
theorem scopes_walk (c : Context)
    (h : ∀ n ∈ nodes, ∀ c : Context, (Visit.mk c n).finish.scopes = c.start.scopes) :
    (c.walk nodes).scopes = c.start.scopes := by
  induction nodes generalizing c with
  | nil => rfl
  | cons node rest ih =>
    exact (ih (c.behind [node]) fun n hn ↦ h n (by simp [hn])).trans (h node (by simp) c)

end Context

/-- There is no statement right inside an expression. -/
theorem Expr.ne_stmt_of_mem_parts {e : Expr} {n : Node} (h : n ∈ e.parts) (s : Stmt) :
    n ≠ .stmt s := by
  rintro rfl
  cases e <;> simp [Expr.parts] at h

/-- The superclass is looked up in the scopes in which the class is declared. -/
theorem Context.scopes_atSuperclass (c : Context) (s : Stmt) (name superclass : Token) :
    (c.atSuperclass s name superclass).start.scopes = (c.start.declare name).scopes := by
  unfold Context.atSuperclass
  dsimp only
  split <;> rfl

/-- A class leaves the scopes open that its own name was declared in. -/
theorem Visit.scopes_finish_classDecl (c : Context) (name : Token) (superclass : Option Token)
    (methods classMethods : List Function)
    (h : ∀ f ∈ methods ++ classMethods, ∀ c : Context,
      (Visit.mk c (.function f)).finish.scopes = c.start.scopes) :
    (Visit.mk c (.stmt (.classDecl name superclass methods classMethods))).finish.scopes =
      (c.start.declare name).scopes := by
  have hparts : ∀ n ∈ (methods ++ classMethods).map Node.function,
      ∀ c : Context, (Visit.mk c n).finish.scopes = c.start.scopes := by
    intro n hn
    obtain ⟨f, hf, rfl⟩ := List.mem_map.1 hn
    exact h f hf
  have hwalk := Context.scopes_walk
    (Visit.mk c (.stmt (.classDecl name superclass methods classMethods))).entered hparts
  rw [Visit.finish_eq]
  cases superclass with
  | none => exact congrArg List.tail hwalk
  | some superclass =>
    refine (congrArg (List.tail ∘ List.tail) hwalk).trans ?_
    exact (scopes_use _ superclass).trans (Context.scopes_atSuperclass _ _ name superclass)

/-- **Every scope that is entered in a node is left at its end.** -/
theorem Visit.keepsScopes (v : Visit) : v.node.KeepsScopes v.start v.finish := by
  have step : Hereditary fun node ↦
      ∀ c : Context, node.KeepsScopes c.start (Visit.mk c node).finish := by
    intro node ih c
    rw [Visit.finish_eq]
    cases node with
    | expr e =>
      refine (e.scopes_resolveSelf _ _).trans (c.scopes_walk fun n hn c ↦ ?_)
      cases n with
      | expr e' | function f => exact ih _ hn c
      | stmt s => exact absurd rfl (Expr.ne_stmt_of_mem_parts hn s)
    | function f =>
      exact ((sameOuter_declareAll _ _).trans (Context.sameOuter_walk _ ih)).scopes_leave
    | stmt s =>
      have hwalk := Context.sameOuter_walk (Visit.mk c (.stmt s)).entered ih
      cases s with
      | block body => exact .of_eq hwalk.scopes_leave
      | var name initial => exact (sameOuter_declare _ name).trans hwalk
      | ret keyword value =>
        have hstart : SameOuter c.start (c.atParts (.ret keyword value)).start := by
          show SameOuter _ (if _ then _ else _)
          split <;> exact .of_eq rfl
        exact hstart.trans hwalk
      | classDecl name superclass methods classMethods =>
        have hmethods := Visit.scopes_finish_classDecl c name superclass methods classMethods
          fun f hf ↦ ih (.function f) (List.mem_map_of_mem hf)
        rw [Visit.finish_eq] at hmethods
        exact .trans (sameOuter_declare _ name) (.of_eq hmethods)
      | _ => exact hwalk
  exact Node.induct step v.node v.toContext

/-- **An expression or a function leaves the open scopes as they were.** -/
theorem Visit.scopes_finish_expr (c : Context) (e : Expr) :
    (Visit.mk c (.expr e)).finish.scopes = c.start.scopes :=
  Visit.keepsScopes ⟨c, .expr e⟩

/-- A function leaves the scopes as they were, since its own scope is left. -/
theorem Visit.scopes_finish_function (c : Context) (f : Function) :
    (Visit.mk c (.function f)).finish.scopes = c.start.scopes :=
  Visit.keepsScopes ⟨c, .function f⟩

/-- The parts of an expression are all walked over with the same scopes open. -/
theorem Context.scopes_walk_parts (c : Context) {e : Expr} {nodes : List Node}
    (h : nodes ⊆ e.parts) : (c.walk nodes).scopes = c.start.scopes := by
  refine c.scopes_walk fun n hn c ↦ ?_
  cases n with
  | expr e' => exact Visit.scopes_finish_expr c e'
  | function f => exact Visit.scopes_finish_function c f
  | stmt s => exact absurd rfl (Expr.ne_stmt_of_mem_parts (h hn) s)

/-- A return with a value has it walked over in the scopes that are there. -/
theorem Context.scopes_atParts_ret (c : Context) (keyword : Token) (value : Option Expr) :
    (c.atParts (.ret keyword value)).start.scopes = c.start.scopes := by
  simp only [Context.atParts]
  split <;> rfl

/-- What is no declaration declares no name. -/
theorem Stmt.declared?_eq_none {s : Stmt} (h : s.isDeclaration = false) : s.declared? = none := by
  cases s <;> first | rfl | cases h

/-- **A stratified statement changes the open scopes by the name that it declares, if it declares
one.** -/
theorem Stmt.scopes_finish (s : Stmt) (h : s.Stratified) (c : Context) :
    (Visit.mk c (.stmt s)).finish.scopes =
      (s.declared?.elim c.start c.start.declare).scopes := by
  match s, h with
  | .expression value, _ | .importModule _ value, _ => exact Visit.scopes_finish_expr c value
  | .block body, _ =>
    rw [Visit.finish_eq]
    exact (Context.sameOuter_walk _ fun n _ c ↦ Visit.keepsScopes ⟨c, n⟩).scopes_leave
  | .var name none, _ => rfl
  | .var name (some initial), _ =>
    exact Visit.scopes_finish_expr ⟨c.surroundings, c.scopes, c.start.declare name⟩ initial
  | .ifElse keyword condition whenTrue none, ⟨_, _, htrue, hdeclares⟩ =>
    have hbranch := Stmt.scopes_finish whenTrue htrue (c.behind [.expr condition])
    rw [Stmt.declared?_eq_none hdeclares] at hbranch
    exact hbranch.trans (Visit.scopes_finish_expr c condition)
  | .ifElse keyword condition whenTrue (some whenFalse),
      ⟨_, _, htrue, hdeclares, _, hfalse, hdeclares'⟩ =>
    have hbranch := Stmt.scopes_finish whenTrue htrue (c.behind [.expr condition])
    have hbranch' := Stmt.scopes_finish whenFalse hfalse
      (c.behind [.expr condition, .stmt whenTrue])
    rw [Stmt.declared?_eq_none hdeclares] at hbranch
    rw [Stmt.declared?_eq_none hdeclares'] at hbranch'
    exact hbranch'.trans (hbranch.trans (Visit.scopes_finish_expr c condition))
  | .loop keyword condition body, ⟨_, _, hbody, hdeclares⟩ =>
    have hround := Stmt.scopes_finish body hbody (c.behind [.expr condition])
    rw [Stmt.declared?_eq_none hdeclares] at hround
    exact hround.trans (Visit.scopes_finish_expr c condition)
  | .ret keyword value, _ =>
    have hstart := c.scopes_atParts_ret keyword value
    rw [Visit.finish_eq]
    cases value with
    | none => exact hstart
    | some value => exact (Visit.scopes_finish_expr (c.atParts _) value).trans hstart
  | .classDecl name superclass methods classMethods, _ =>
    exact Visit.scopes_finish_classDecl c name superclass methods classMethods
      fun f _ c ↦ Visit.scopes_finish_function c f

end AliasScript
