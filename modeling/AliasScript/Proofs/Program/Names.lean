import AliasScript.Program

/-!
# The names in a tree

The tokens that a tree uses or declares as names, in the order in which scopes are walked. The scope
table is keyed by the indices of these tokens, so no token of a source may be made two names of
(`Covers`).
-/

namespace AliasScript

mutual

/-- The names that an expression uses or declares, in the order in which scopes are walked. The name
of a property or of a method is not one of them. -/
def Expr.names : Expr → List Token
  | .literal _ => []
  | .variable name => [name]
  | .this keyword => [keyword]
  | .super keyword _ => [keyword]
  | .array _ elements => exprsNames elements
  | .grouping inner => inner.names
  | .function declaration => declaration.names
  | .unary _ operand => operand.names
  | .reference _ target => target.names
  | .binary left _ right => left.names ++ right.names
  | .logical left _ right => left.names ++ right.names
  | .ternary condition _ whenTrue whenFalse =>
    condition.names ++ (whenTrue.names ++ whenFalse.names)
  | .assign name value => value.names ++ [name]
  | .call callee _ arguments => callee.names ++ exprsNames arguments
  | .get object _ => object.names
  | .set object _ value => value.names ++ object.names
  | .subscript object _ index => object.names ++ index.names
  | .setElement object _ index value => object.names ++ (index.names ++ value.names)

/-- The names in expressions. -/
def exprsNames : List Expr → List Token
  | [] => []
  | e :: rest => e.names ++ exprsNames rest

/-- The names in a function: its parameters and those in its body, not its own. -/
def Function.names : Function → List Token
  | .mk _ parameters body => parameters.getD [] ++ stmtsNames body

/-- The names in functions. -/
def functionsNames : List Function → List Token
  | [] => []
  | f :: rest => f.names ++ functionsNames rest

/-- The names that a statement uses or declares. -/
def Stmt.names : Stmt → List Token
  | .expression value => value.names
  | .block body => stmtsNames body
  | .var name none => [name]
  | .var name (some initial) => name :: initial.names
  | .ifElse _ condition whenTrue none => condition.names ++ whenTrue.names
  | .ifElse _ condition whenTrue (some whenFalse) =>
    condition.names ++ (whenTrue.names ++ whenFalse.names)
  | .loop _ condition body => condition.names ++ body.names
  | .ret _ none => []
  | .ret _ (some value) => value.names
  | .importModule _ name => name.names
  | .classDecl name superclass methods classMethods =>
    name :: (superclass.toList ++ (functionsNames methods ++ functionsNames classMethods))

/-- The names in statements. -/
def stmtsNames : List Stmt → List Token
  | [] => []
  | s :: rest => s.names ++ stmtsNames rest

end

/-- No token is made more names of than it was read times. -/
def Covers (read names : List Token) : Prop :=
  ∀ t, names.count t ≤ read.count t

end AliasScript
