import AliasScript.Number.Decimal
import AliasScript.Program

/-!
# The written tree

A fully parenthesized text of a program tree. Every token that a node keeps is written with its
line, so that the text shows where the node came from.
-/

namespace AliasScript

/-- A token as its lexeme and its line. -/
def Token.written (t : Token) : String :=
  t.lexeme ++ "@" ++ toString t.line

/-- The line of a token alone. -/
def Token.lineMark (t : Token) : String :=
  "@" ++ toString t.line

/-- A literal; the characters of a string stand between quotes as they are. -/
def Literal.written : Literal → String
  | .nil => "nil"
  | .bool b => if b then "true" else "false"
  | .num x => Number.text x
  | .str s => "\"" ++ s ++ "\""

/-- The parts of a node, each after a blank. -/
def spaced (parts : List String) : String :=
  String.join (parts.map (" " ++ ·))

/-- A node with its head and its parts. -/
def node (head : String) (parts : List String) : String :=
  "(" ++ head ++ spaced parts ++ ")"

/-- A parameter list, or the word that stands for its absence. -/
def writtenParameters : Option (List Token) → String
  | none => "getter"
  | some parameters => "(" ++ String.intercalate " " (parameters.map Token.written) ++ ")"

mutual

/-- The text of an expression. -/
def Expr.written : Expr → String
  | .literal value => value.written
  | .variable name => name.written
  | .this keyword => keyword.written
  | .super keyword method => node ("super" ++ keyword.lineMark) [method.written]
  | .array bracket elements => node ("array" ++ bracket.lineMark) (writtenExprs elements)
  | .grouping inner => node "group" [inner.written]
  | .function declaration => declaration.written "fun"
  | .unary operator operand => node "unary" [operator.written, operand.written]
  | .reference operator target => node ("ref" ++ operator.lineMark) [target.written]
  | .binary left operator right => node operator.written [left.written, right.written]
  | .logical left operator right => node "logical" [operator.written, left.written, right.written]
  | .ternary condition question whenTrue whenFalse =>
    node ("?" ++ question.lineMark) [condition.written, whenTrue.written, whenFalse.written]
  | .assign name value => node "assign" [name.written, value.written]
  | .call callee paren arguments =>
    node ("call" ++ paren.lineMark) (callee.written :: writtenExprs arguments)
  | .get object name => node "get" [object.written, name.written]
  | .set object name value => node "set" [object.written, name.written, value.written]
  | .subscript object bracket index =>
    node ("index" ++ bracket.lineMark) [object.written, index.written]
  | .setElement object bracket index value =>
    node ("setindex" ++ bracket.lineMark) [object.written, index.written, value.written]

/-- The texts of expressions. -/
def writtenExprs : List Expr → List String
  | [] => []
  | e :: rest => e.written :: writtenExprs rest

/-- The text of a function, which starts with a word for its kind. -/
def Function.written (head : String) : Function → String
  | .mk name parameters body =>
    node head
      ((name.elim "_" Token.written) :: writtenParameters parameters :: writtenStmts body)

/-- The texts of functions of one kind. -/
def writtenFunctions (head : String) : List Function → List String
  | [] => []
  | f :: rest => f.written head :: writtenFunctions head rest

/-- The text of a statement. -/
def Stmt.written : Stmt → String
  | .expression value => node "expr" [value.written]
  | .block body => node "block" (writtenStmts body)
  | .var name none => node "var" [name.written]
  | .var name (some initial) => node "var" [name.written, initial.written]
  | .ifElse keyword condition whenTrue none =>
    node ("if" ++ keyword.lineMark) [condition.written, whenTrue.written]
  | .ifElse keyword condition whenTrue (some whenFalse) =>
    node ("if" ++ keyword.lineMark) [condition.written, whenTrue.written, whenFalse.written]
  | .loop keyword condition body =>
    node "while" [keyword.written, condition.written, body.written]
  | .ret keyword none => node ("return" ++ keyword.lineMark) []
  | .ret keyword (some value) => node ("return" ++ keyword.lineMark) [value.written]
  | .importModule keyword name => node ("import" ++ keyword.lineMark) [name.written]
  | .classDecl name superclass methods classMethods =>
    node "class"
      (name.written :: superclass.elim "_" Token.written ::
        (writtenFunctions "method" methods ++ writtenFunctions "classmethod" classMethods))

/-- The texts of statements. -/
def writtenStmts : List Stmt → List String
  | [] => []
  | s :: rest => s.written :: writtenStmts rest

end

end AliasScript
