import AliasScript.Diagnostic
import AliasScript.Proofs.Program.Names

/-!
# Visits of the walk over scopes

The walk that finds the distances of names comes to every node of a program once. A `Visit` is what
it has at hand there: what surrounds the node, the scopes that are open, and what it has found so
far. `Visit.inside` gives the visits of the nodes right inside, each with the state in which the
walk comes to it, and `Walks` all visits of the walk over a program.

The walk itself knows the open scopes by the names declared in them so far. A visit adds to each of
them what it is a scope of (`Scope`), and the declaration that the node stands in, if it is not
complete: a name is declared before its initial value is looked at, and bound only after that.
-/

namespace AliasScript

/-! ### Scopes -/

/-- A scope of a program, named by what opens it. -/
inductive Scope where
  | block (body : List Stmt)
  /-- The parameters and the body of a function share a scope. -/
  | call (declaration : Function)
  /-- The scope of `this` around the methods of a declared class. -/
  | receiver (declaration : Stmt)
  /-- The scope of `super` around that of `this`. -/
  | superclass (declaration : Stmt)

/-- The name that a statement declares in the scope that it stands in. -/
def Stmt.declared? : Stmt → Option Token
  | .var name _ | .classDecl name _ _ _ => some name
  | _ => none

namespace Scope

/-- The statements that stand right in the scope. -/
def body : Scope → List Stmt
  | block body => body
  | call declaration => declaration.body
  | receiver _ | superclass _ => []

/-- The names that are bound when the scope is entered. -/
def bound : Scope → List String
  | block _ => []
  | call declaration => (declaration.parameters.getD []).map Token.lexeme
  | receiver _ => ["this"]
  | superclass _ => ["super"]

/-- The names that the scope declares, sooner or later. -/
def declares (s : Scope) : List String :=
  s.bound ++ (s.body.filterMap Stmt.declared?).map Token.lexeme

end Scope

/-- A scope that is open, and the declaration in it that the walk is inside of. -/
structure OpenScope where
  scope : Scope
  pending : Option Stmt

/-- The open scopes while a declaration in the innermost one is not complete. -/
def declaring (s : Stmt) : List OpenScope → List OpenScope
  | [] => []
  | innermost :: outer => { innermost with pending := some s } :: outer

/-! ### Nodes -/

/-- What the walk comes to. -/
inductive Node where
  | expr (e : Expr)
  | function (f : Function)
  | stmt (s : Stmt)

namespace Node

/-- Walks over a node. -/
def resolve (k : Surroundings) : Node → Resolution → Resolution
  | expr e => e.resolve k
  | function f => f.resolve k
  | stmt s => s.resolve k

/-- The names that a node uses or declares. -/
def names : Node → List Token
  | expr e => e.names
  | function f => f.names
  | stmt s => s.names

end Node

namespace Expr

/-- The nodes right inside an expression, in the order of the walk. -/
def parts : Expr → List Node
  | .literal _ | .variable _ | .this _ | .super _ _ => []
  | .array _ elements => elements.map .expr
  | .grouping inner => [.expr inner]
  | .function declaration => [.function declaration]
  | .unary _ operand => [.expr operand]
  | .reference _ target => [.expr target]
  | .binary left _ right => [.expr left, .expr right]
  | .logical left _ right => [.expr left, .expr right]
  | .ternary condition _ whenTrue whenFalse => [.expr condition, .expr whenTrue, .expr whenFalse]
  | .assign _ value => [.expr value]
  | .call callee _ arguments => .expr callee :: arguments.map .expr
  | .get object _ => [.expr object]
  | .set object _ value => [.expr value, .expr object]
  | .subscript object _ index => [.expr object, .expr index]
  | .setElement object _ index value => [.expr object, .expr index, .expr value]

/-- The names that an expression looks up or assigns itself, not in its parts. -/
def uses : Expr → List Token
  | .variable name | .assign name _ => [name]
  | .this keyword | .super keyword _ => [keyword]
  | _ => []

end Expr

/-- The nodes right inside a statement. -/
def Stmt.parts : Stmt → List Node
  | .expression value => [.expr value]
  | .block body => body.map .stmt
  | .var _ initial => initial.toList.map .expr
  | .ifElse _ condition whenTrue whenFalse =>
    .expr condition :: .stmt whenTrue :: whenFalse.toList.map .stmt
  | .loop _ condition body => [.expr condition, .stmt body]
  | .ret _ value => value.toList.map .expr
  | .importModule _ name => [.expr name]
  | .classDecl _ _ methods classMethods => (methods ++ classMethods).map .function

namespace Node

/-- The nodes right inside a node. -/
def parts : Node → List Node
  | expr e => e.parts
  | function f => f.body.map stmt
  | stmt s => s.parts

/-- The names that a node looks up or assigns itself, after its parts. -/
def uses : Node → List Token
  | expr e => e.uses
  | function _ | stmt _ => []

/-- The names that a node declares or looks up before its parts. -/
def heads : Node → List Token
  | expr _ => []
  | function f => f.parameters.getD []
  | stmt (.var name _) => [name]
  | stmt (.classDecl name superclass _ _) => name :: superclass.toList
  | stmt _ => []

end Node

/-! ### Visits -/

/-- What the walk has at hand when it comes to a node. -/
structure Context where
  surroundings : Surroundings
  /-- The open scopes, the innermost first. -/
  scopes : List OpenScope
  /-- What the walk has found so far. -/
  start : Resolution

namespace Context

/-- The walk at the start of a program. -/
def outermost : Context :=
  ⟨.none, [], .empty⟩

/-- What the walk has found after some nodes. -/
def walk (c : Context) (nodes : List Node) : Resolution :=
  nodes.foldl (fun r node ↦ node.resolve c.surroundings r) c.start

/-- The context behind some nodes. -/
def behind (c : Context) (nodes : List Node) : Context :=
  { c with start := c.walk nodes }

end Context

/-- The walk at a node. -/
structure Visit extends Context where
  node : Node

namespace Context

/-- The visits of nodes that stand side by side. -/
def inOrder (c : Context) : List Node → List Visit
  | [] => []
  | node :: rest => ⟨c, node⟩ :: (c.behind [node]).inOrder rest

/-- The context in which the walk comes to the body of a function. -/
def atBody (c : Context) (f : Function) : Context where
  surroundings := { c.surroundings with inFunction := true }
  scopes := ⟨.call f, none⟩ :: c.scopes
  start := (f.parameters.getD []).foldl Resolution.declare (c.start.enter [])

/-- The context in which the walk comes to the name of a superclass. -/
def atSuperclass (c : Context) (s : Stmt) (name superclass : Token) : Context where
  surroundings := c.surroundings
  scopes := declaring s c.scopes
  start :=
    if name.lexeme == superclass.lexeme then
      (c.start.declare name).report superclass .inheritsItself
    else c.start.declare name

/-- The context in which the walk comes to the nodes right inside a statement. -/
def atParts (c : Context) (s : Stmt) : Context :=
  match s with
  | .block body => ⟨c.surroundings, ⟨.block body, none⟩ :: c.scopes, c.start.enter []⟩
  | .var name _ => ⟨c.surroundings, declaring s c.scopes, c.start.declare name⟩
  | .ret keyword _ =>
    { c with start :=
        if c.surroundings.inFunction then c.start
        else c.start.report keyword .returnOutsideFunction }
  | .classDecl name none _ _ =>
    ⟨{ c.surroundings with inClass := .plain }, ⟨.receiver s, none⟩ :: c.scopes,
      (c.start.declare name).enter ["this"]⟩
  | .classDecl name (some superclass) _ _ =>
    ⟨{ c.surroundings with inClass := .derived },
      ⟨.receiver s, none⟩ :: ⟨.superclass s, none⟩ :: c.scopes,
      (((c.atSuperclass s name superclass).start.use superclass).enter ["super"]).enter ["this"]⟩
  | _ => c

end Context

namespace Visit

/-- What the walk has found when it leaves the node. -/
def finish (v : Visit) : Resolution :=
  v.node.resolve v.surroundings v.start

/-- The context in which the walk comes to the nodes right inside. -/
def entered (v : Visit) : Context :=
  match v.node with
  | .expr _ => v.toContext
  | .function f => v.atBody f
  | .stmt s => v.atParts s

end Visit

/-- **The visits of the walk over a program.** The name of a superclass is no part of its own in the
tree, but it is looked up like a variable. -/
inductive Walks (program : Program) : Visit → Prop
  | top {v : Visit} : v ∈ Context.outermost.inOrder (program.map .stmt) → Walks program v
  | inside {v w : Visit} : Walks program v → w ∈ v.entered.inOrder v.node.parts → Walks program w
  | superclass {c : Context} {s : Stmt} {name superclass : Token}
      {methods classMethods : List Function} :
      s = .classDecl name (some superclass) methods classMethods → Walks program ⟨c, .stmt s⟩ →
      Walks program ⟨c.atSuperclass s name superclass, .expr (.variable superclass)⟩

/-- A source gives a program without errors, with the addresses of the names in it. -/
structure Accepted (index : Nat) (source : String) (program : Program) (addresses : List Address) :
    Prop where
  parsed : (Scan.ofSource index source).program? = .ok program
  resolved : program.addresses = .ok addresses

/-! ### The nodes inside make up the walk -/

namespace Context

variable (c : Context)

theorem walk_append (before after : List Node) :
    c.walk (before ++ after) = (c.behind before).walk after :=
  List.foldl_append

/-- Where the visits of nodes side by side start. -/
theorem mem_inOrder {c : Context} {nodes : List Node} {w : Visit} :
    w ∈ c.inOrder nodes ↔
      ∃ before after, nodes = before ++ w.node :: after ∧ w.toContext = c.behind before := by
  induction nodes generalizing c with
  | nil => simp [inOrder]
  | cons node rest ih =>
    simp only [inOrder, List.mem_cons, ih]
    constructor
    · rintro (rfl | ⟨before, after, rfl, hw⟩)
      · exact ⟨[], rest, rfl, rfl⟩
      · exact ⟨node :: before, after, rfl, hw⟩
    · rintro ⟨before, after, hnodes, hw⟩
      cases before with
      | nil =>
        obtain ⟨rfl, rfl⟩ := List.cons.inj hnodes
        exact .inl (by cases w; cases hw; rfl)
      | cons first before =>
        cases hnodes
        exact .inr ⟨before, after, rfl, hw⟩

end Context

section Lists

variable (k : Surroundings) (r : Resolution)

theorem resolveExprs_eq (es : List Expr) :
    resolveExprs k es r = (es.map Node.expr).foldl (fun r node ↦ node.resolve k r) r := by
  induction es generalizing r with
  | nil => rfl
  | cons e rest ih => exact ih _

theorem resolveStmts_eq (ss : List Stmt) :
    resolveStmts k ss r = (ss.map Node.stmt).foldl (fun r node ↦ node.resolve k r) r := by
  induction ss generalizing r with
  | nil => rfl
  | cons s rest ih => exact ih _

theorem resolveFunctions_eq (fs : List Function) :
    resolveFunctions k fs r = (fs.map Node.function).foldl (fun r node ↦ node.resolve k r) r := by
  induction fs generalizing r with
  | nil => rfl
  | cons f rest ih => exact ih _

theorem exprsNames_eq (es : List Expr) :
    exprsNames es = (es.map Node.expr).flatMap Node.names := by
  induction es with
  | nil => rfl
  | cons e rest ih => simp [exprsNames, Node.names, ih]

theorem stmtsNames_eq (ss : List Stmt) :
    stmtsNames ss = (ss.map Node.stmt).flatMap Node.names := by
  induction ss with
  | nil => rfl
  | cons s rest ih => simp [stmtsNames, Node.names, ih]

theorem functionsNames_eq (fs : List Function) :
    functionsNames fs = (fs.map Node.function).flatMap Node.names := by
  induction fs with
  | nil => rfl
  | cons f rest ih => simp [functionsNames, Node.names, ih]

end Lists

/-- The names of a node are those before its parts, those in its parts, and those that it uses
after them. -/
theorem Node.names_eq (node : Node) :
    node.names = node.heads ++ (node.parts.flatMap names ++ node.uses) := by
  cases node with
  | expr e =>
    cases e <;> simp [names, heads, parts, uses, Expr.names, Expr.parts, Expr.uses, exprsNames_eq]
  | function f =>
    cases f with
    | mk name parameters body =>
      simp [names, heads, parts, uses, Function.names, Function.parameters, Function.body,
        stmtsNames_eq]
  | stmt s =>
    cases s with
    | var name initial | ret name initial =>
      cases initial <;> simp [names, heads, parts, uses, Stmt.names, Stmt.parts]
    | ifElse keyword condition whenTrue whenFalse =>
      cases whenFalse <;> simp [names, heads, parts, uses, Stmt.names, Stmt.parts]
    | _ =>
      simp [names, heads, parts, uses, Stmt.names, Stmt.parts, stmtsNames_eq, functionsNames_eq]

end AliasScript
