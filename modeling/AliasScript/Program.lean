import AliasScript.Token

/-!
# Programs

The tree of a program. Nodes keep the tokens that later passes speak about: a name's token is what
an error message points at, and its index is what the scope table is keyed by.
-/

namespace AliasScript

mutual

/-- Expressions. -/
inductive Expr where
  | literal (value : Literal)
  | variable (name : Token)
  | this (keyword : Token)
  | super (keyword method : Token)
  /-- An array literal, with its opening bracket. -/
  | array (bracket : Token) (elements : List Expr)
  | grouping (inner : Expr)
  | function (declaration : Function)
  | unary (operator : Token) (operand : Expr)
  /-- An alias of the target, with the ampersand. -/
  | reference (operator : Token) (target : Expr)
  | binary (left : Expr) (operator : Token) (right : Expr)
  /-- A conjunction or a disjunction, whose right operand may not be needed. -/
  | logical (left : Expr) (operator : Token) (right : Expr)
  | ternary (condition : Expr) (question : Token) (whenTrue whenFalse : Expr)
  | assign (name : Token) (value : Expr)
  /-- A call, with its closing parenthesis. -/
  | call (callee : Expr) (paren : Token) (arguments : List Expr)
  | get (object : Expr) (name : Token)
  | set (object : Expr) (name : Token) (value : Expr)
  /-- An element of an array, with the closing bracket. -/
  | subscript (object : Expr) (bracket : Token) (index : Expr)
  | setElement (object : Expr) (bracket : Token) (index value : Expr)

/-- What a function literal, a function declaration or a method declares. A method without a
parameter list is a getter. -/
inductive Function where
  | mk (name : Option Token) (parameters : Option (List Token)) (body : List Stmt)

/-- Statements. -/
inductive Stmt where
  | expression (value : Expr)
  | block (body : List Stmt)
  | var (name : Token) (initial : Option Expr)
  | ifElse (keyword : Token) (condition : Expr) (whenTrue : Stmt) (whenFalse : Option Stmt)
  /-- A loop; `keyword` is the word that the loop was written with. -/
  | loop (keyword : Token) (condition : Expr) (body : Stmt)
  | ret (keyword : Token) (value : Option Expr)
  | importModule (keyword : Token) (name : Expr)
  /-- A class with the name of its superclass, its methods and its class methods. -/
  | classDecl (name : Token) (superclass : Option Token) (methods classMethods : List Function)

end

instance : Inhabited Expr := ⟨.literal .nil⟩

instance : Inhabited Function := ⟨.mk none none []⟩

instance : Inhabited Stmt := ⟨.block []⟩

namespace Function

/-- The name, which a function literal does not have. -/
def name : Function → Option Token
  | mk name _ _ => name

/-- The parameter list, which a getter does not have. -/
def parameters : Function → Option (List Token)
  | mk _ parameters _ => parameters

/-- The statements of the body. -/
def body : Function → List Stmt
  | mk _ _ body => body

/-- A getter is called by naming it. -/
def isGetter (f : Function) : Bool :=
  f.parameters.isNone

/-- The number of arguments that a call has to bring. -/
def arity (f : Function) : Nat :=
  (f.parameters.getD []).length

end Function

namespace Expr

/-- The expressions that name a place: they can be assigned to and referred to. -/
def isPlace : Expr → Bool
  | .variable _ | .get _ _ | .subscript _ _ _ => true
  | _ => false

end Expr

/-- A program is a list of statements. -/
abbrev Program := List Stmt

end AliasScript
