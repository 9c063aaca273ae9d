import AliasScript.Program.Grammar.Expression

/-!
# The grammar of statements

Statements and declarations. A `for` is read as the loop that it abbreviates.
-/

namespace AliasScript

namespace Grammar

variable (g : Grammar)

/-! ### Statements -/

/-- An expression with its end. -/
def expressionStatement : Parse Stmt := do
  let value ← expressionHere g
  Parse.terminator .expressionEnd
  return .expression value

/-- A variable declaration behind its keyword. -/
def varFrom : Parse Stmt := do
  let name ← Parse.expect .identifier .variableName
  let initial ← match ← Parse.accept .equal with
    | some _ => some <$> expressionHere g
    | none => pure none
  Parse.terminator .variableEnd
  return .var name initial

/-- An `if` behind its keyword. An `else` belongs to the nearest `if`. -/
def ifFrom (keyword : Token) : Parse Stmt := do
  let _ ← Parse.expect .leftParen .ifCondition
  let condition ← g.expression
  let _ ← Parse.expect .rightParen .ifConditionEnd
  let whenTrue ← g.statement
  match ← Parse.accept .elseWord with
  | some _ => return .ifElse keyword condition whenTrue (some (← g.statement))
  | none => return .ifElse keyword condition whenTrue none

/-- A `while` behind its keyword. -/
def whileFrom (keyword : Token) : Parse Stmt := do
  let _ ← Parse.expect .leftParen .whileCondition
  let condition ← g.expression
  let _ ← Parse.expect .rightParen .whileConditionEnd
  return .loop keyword condition (← g.statement)

/-- The first clause of a `for`, with the semicolon behind it. -/
def forInitial : Parse (Option Stmt) := do
  match ← Parse.accept .semicolon with
  | some _ => return none
  | none =>
    match ← Parse.accept .varWord with
    | some _ => some <$> varFrom g
    | none => some <$> expressionStatement g

/-- A `for` is a loop whose body is followed by the last clause, inside a block that starts with the
first clause. -/
def desugarFor (keyword : Token) (initial : Option Stmt) (condition : Expr)
    (increment : Option Expr) (body : Stmt) : Stmt :=
  let body := match increment with
    | some e => .block [body, .expression e]
    | none => body
  match initial with
  | some s => .block [s, .loop keyword condition body]
  | none => .loop keyword condition body

/-- A `for` behind its keyword. A missing condition is always true. -/
def forFrom (keyword : Token) : Parse Stmt := do
  let _ ← Parse.expect .leftParen .forClauses
  let initial ← forInitial g
  let condition ←
    if ← Parse.check .semicolon then pure (.literal (.bool true)) else g.expression
  let _ ← Parse.expect .semicolon .forConditionEnd
  let increment ← if ← Parse.check .rightParen then pure none else some <$> g.expression
  let _ ← Parse.expect .rightParen .forClausesEnd
  return desugarFor keyword initial condition increment (← g.statement)

/-- A `return` behind its keyword. -/
def returnFrom (keyword : Token) : Parse Stmt := do
  let c ← get
  let value ←
    if c.check .semicolon || c.check .rightBrace || c.atEnd then pure none
    else some <$> g.expression
  Parse.terminator .returnEnd
  return .ret keyword value

/-- An `import` behind its keyword. -/
def importFrom (keyword : Token) : Parse Stmt := do
  let name ← g.expression
  Parse.terminator .importEnd
  return .importModule keyword name

/-- The tokens by which a statement other than an expression is known. -/
def startsKeywordStatement : Kind → Bool
  | .ifWord | .returnWord | .whileWord | .forWord | .importWord | .leftBrace => true
  | _ => false

/-- A statement behind the token by which it is known. -/
def statementFrom (t : Token) : Parse Stmt :=
  match t.kind with
  | .ifWord => ifFrom g t
  | .returnWord => returnFrom g t
  | .whileWord => whileFrom g t
  | .forWord => forFrom g t
  | .importWord => importFrom g t
  | _ => .block <$> g.block

/-- A statement that declares nothing. -/
def statementHere : Parse Stmt := do
  match ← Parse.acceptIf startsKeywordStatement with
  | none => expressionStatement g
  | some t => statementFrom g t

/-! ### Declarations -/

/-- Methods and class methods up to the closing brace of a class. -/
def methodsFrom : Nat → Parse (List Function × List Function)
  | 0 => .exhausted
  | n + 1 => do
    let c ← get
    if c.check .rightBrace || c.atEnd then return ([], [])
    else
      let ofClass ← Parse.accept .classWord
      let name ← Parse.expect .identifier .methodName
      let method ← methodFrom g name
      let (methods, classMethods) ← methodsFrom n
      match ofClass with
      | some _ => return (methods, method :: classMethods)
      | none => return (method :: methods, classMethods)

/-- A class behind its name and its superclass. -/
def classBody (name : Token) (superclass : Option Token) : Parse Stmt := do
  let _ ← Parse.expect .leftBrace .classBody
  let (methods, classMethods) ← methodsFrom g g.rounds
  let _ ← Parse.expect .rightBrace .classEnd
  return .classDecl name superclass methods classMethods

/-- A class behind its keyword. -/
def classFrom : Parse Stmt := do
  let name ← Parse.expect .identifier .className
  let superclass ← match ← Parse.accept .less with
    | some _ => some <$> Parse.expect .identifier .superclassName
    | none => pure none
  classBody g name superclass

/-- A function declaration behind its keyword: a variable that holds a function of the same name. -/
def functionDeclarationFrom : Parse Stmt := do
  let name ← Parse.expect .identifier .functionName
  let f ← functionFrom g (some name) .functionParameters
  return .var name (some (.function f))

/-- The next two tokens start a function declaration. Without a name it is an expression. -/
def startsFunctionDeclaration : List Token → Bool
  | t :: name :: _ => t.kind == .funWord && name.kind == .identifier
  | _ => false

/-- A declaration or a statement. -/
def declare : Parse Stmt := do
  match ← Parse.accept .classWord with
  | some _ => classFrom g
  | none =>
    if startsFunctionDeclaration (← get).rest then
      modify Cursor.advance
      functionDeclarationFrom g
    else
      match ← Parse.accept .varWord with
      | some _ => varFrom g
      | none => statementHere g

/-- A declaration or a statement; none after an error, which is recorded. -/
def declaration : Parse (Option Stmt) :=
  Parse.recovering (declare g)

/-- Declarations up to a closing brace or the end. -/
def declarationsFrom : Nat → Parse (List Stmt)
  | 0 => .exhausted
  | n + 1 => do
    let c ← get
    if c.check .rightBrace || c.atEnd then return []
    else
      let s ← declaration g
      return s.toList ++ (← declarationsFrom n)

/-- The statements up to a closing brace, and the brace. -/
def blockHere : Parse (List Stmt) := do
  let body ← declarationsFrom g g.rounds
  let _ ← Parse.expect .rightBrace .blockEnd
  return body

end Grammar

end AliasScript
