import AliasScript.Program

/-!
# Scopes

For every name that is used inside a local scope, the number of scopes between the use and the
innermost scope that declares the name. A name that no scope declares is global and has no distance.
The walk opens a scope for each block, for each function (parameters and body share it), for the
receiver of a class's methods, and around that for its superclass, exactly where running the program
makes a frame.

The walk goes on past errors, so that all of them are reported.
-/

namespace AliasScript

/-- What scopes do not allow. -/
inductive ScopeCause where
  | redeclared
  | inheritsItself
  | returnOutsideFunction
  | thisOutsideClass
  | superOutsideClass
  | superWithoutSuperclass
deriving DecidableEq, Repr

namespace ScopeCause

/-- What a report says of the cause. -/
def message : ScopeCause → String
  | redeclared => "Already a variable with this name in this scope."
  | inheritsItself => "A class can't inherit from itself."
  | returnOutsideFunction => "Can't return from top-level code."
  | thisOutsideClass => "Can't use 'this' outside of a class."
  | superOutsideClass => "Can't use 'super' outside of a class."
  | superWithoutSuperclass => "Can't use 'super' in a class with no superclass."

end ScopeCause

/-- An error about scopes, with the token that it is about. -/
structure ScopeError where
  token : Token
  cause : ScopeCause
deriving DecidableEq, Repr

/-- The use of a name and the distance of the scope that declares it. -/
structure Address where
  token : Token
  distance : Nat
deriving DecidableEq, Repr

/-- The kind of the nearest enclosing class. -/
inductive ClassContext where
  | outside
  | plain
  | derived
deriving DecidableEq, Repr

/-- What encloses a node, apart from the scopes. -/
structure Surroundings where
  inFunction : Bool
  inClass : ClassContext
deriving DecidableEq, Repr

/-- The surroundings of a whole source. -/
def Surroundings.none : Surroundings :=
  ⟨false, .outside⟩

/-- What the walk has open and what it has found. -/
structure Resolution where
  /-- The names declared so far in each open scope, the innermost scope first. -/
  scopes : List (List String)
  addresses : Array Address
  errors : Array ScopeError
deriving DecidableEq, Repr

namespace Resolution

/-- The start of a walk, outside of all scopes. -/
def empty : Resolution :=
  ⟨[], #[], #[]⟩

/-- Notes an error. -/
def report (r : Resolution) (token : Token) (cause : ScopeCause) : Resolution :=
  { r with errors := r.errors.push ⟨token, cause⟩ }

/-- Opens a scope with some names in it. -/
def enter (r : Resolution) (names : List String) : Resolution :=
  { r with scopes := names :: r.scopes }

/-- Closes the innermost scope. -/
def leave (r : Resolution) : Resolution :=
  { r with scopes := r.scopes.tail }

/-- Declares a name in the innermost scope. Outside of all scopes names are global and may be
declared again. -/
def declare (r : Resolution) (name : Token) : Resolution :=
  match r.scopes with
  | [] => r
  | scope :: outer =>
    if scope.contains name.lexeme then r.report name .redeclared
    else { r with scopes := (name.lexeme :: scope) :: outer }

/-- The distance of the innermost scope that declares a name. -/
def distance? (r : Resolution) (name : String) : Option Nat :=
  r.scopes.findIdx? (·.contains name)

/-- Notes the use of a name. -/
def use (r : Resolution) (name : Token) : Resolution :=
  match r.distance? name.lexeme with
  | some distance => { r with addresses := r.addresses.push ⟨name, distance⟩ }
  | none => r

end Resolution

mutual

/-- Walks over an expression. -/
def Expr.resolve (k : Surroundings) : Expr → Resolution → Resolution
  | .literal _, r => r
  | .variable name, r => r.use name
  | .this keyword, r =>
    match k.inClass with
    | .outside => r.report keyword .thisOutsideClass
    | _ => r.use keyword
  | .super keyword _, r =>
    match k.inClass with
    | .outside => r.report keyword .superOutsideClass
    | .plain => r.report keyword .superWithoutSuperclass
    | .derived => r.use keyword
  | .array _ elements, r => resolveExprs k elements r
  | .grouping inner, r => inner.resolve k r
  | .function declaration, r => declaration.resolve k r
  | .unary _ operand, r => operand.resolve k r
  | .reference _ target, r => target.resolve k r
  | .binary left _ right, r => right.resolve k (left.resolve k r)
  | .logical left _ right, r => right.resolve k (left.resolve k r)
  | .ternary condition _ whenTrue whenFalse, r =>
    whenFalse.resolve k (whenTrue.resolve k (condition.resolve k r))
  | .assign name value, r => (value.resolve k r).use name
  | .call callee _ arguments, r => resolveExprs k arguments (callee.resolve k r)
  | .get object _, r => object.resolve k r
  | .set object _ value, r => object.resolve k (value.resolve k r)
  | .subscript object _ index, r => index.resolve k (object.resolve k r)
  | .setElement object _ index value, r =>
    value.resolve k (index.resolve k (object.resolve k r))

/-- Walks over expressions from left to right. -/
def resolveExprs (k : Surroundings) : List Expr → Resolution → Resolution
  | [], r => r
  | e :: rest, r => resolveExprs k rest (e.resolve k r)

/-- Walks over a function: its parameters and its body share one scope. -/
def Function.resolve (k : Surroundings) : Function → Resolution → Resolution
  | .mk _ parameters body, r =>
    let inside := (parameters.getD []).foldl Resolution.declare (r.enter [])
    (resolveStmts { k with inFunction := true } body inside).leave

/-- Walks over functions one after the other. -/
def resolveFunctions (k : Surroundings) : List Function → Resolution → Resolution
  | [], r => r
  | f :: rest, r => resolveFunctions k rest (f.resolve k r)

/-- Walks over a statement. A variable is declared before its initial value is looked at, so that a
function can call itself. -/
def Stmt.resolve (k : Surroundings) : Stmt → Resolution → Resolution
  | .expression value, r => value.resolve k r
  | .block body, r => (resolveStmts k body (r.enter [])).leave
  | .var name none, r => r.declare name
  | .var name (some initial), r => initial.resolve k (r.declare name)
  | .ifElse _ condition whenTrue none, r => whenTrue.resolve k (condition.resolve k r)
  | .ifElse _ condition whenTrue (some whenFalse), r =>
    whenFalse.resolve k (whenTrue.resolve k (condition.resolve k r))
  | .loop _ condition body, r => body.resolve k (condition.resolve k r)
  | .ret keyword none, r => if k.inFunction then r else r.report keyword .returnOutsideFunction
  | .ret keyword (some value), r =>
    value.resolve k (if k.inFunction then r else r.report keyword .returnOutsideFunction)
  | .importModule _ name, r => name.resolve k r
  | .classDecl name none methods classMethods, r =>
    let k := { k with inClass := .plain }
    let r := (r.declare name).enter ["this"]
    (resolveFunctions k classMethods (resolveFunctions k methods r)).leave
  | .classDecl name (some superclass) methods classMethods, r =>
    let k := { k with inClass := .derived }
    let r := r.declare name
    let r := if name.lexeme == superclass.lexeme then r.report superclass .inheritsItself else r
    let r := ((r.use superclass).enter ["super"]).enter ["this"]
    (resolveFunctions k classMethods (resolveFunctions k methods r)).leave.leave

/-- Walks over statements one after the other. -/
def resolveStmts (k : Surroundings) : List Stmt → Resolution → Resolution
  | [], r => r
  | s :: rest, r => resolveStmts k rest (s.resolve k r)

end

/-- The addresses of all local uses of names in a program, or what is wrong with it, in the order of
the walk. -/
def Program.addresses (program : Program) : Except (List ScopeError) (List Address) :=
  let r := resolveStmts .none program .empty
  if r.errors.isEmpty then .ok r.addresses.toList else .error r.errors.toList

end AliasScript
