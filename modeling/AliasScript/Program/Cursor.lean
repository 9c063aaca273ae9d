import AliasScript.Program

/-!
# Reading tokens

A cursor stands before the tokens that are still to be read and knows the one that was read last. A
parser is an action on cursors. It may fail with an error, which ends the statement that it is
reading, or record one and go on. Parsers recurse to a bounded depth; running out of that bound is
kept apart from errors, since it says nothing about the program.
-/

namespace AliasScript

/-- What the grammar asks for, or does not allow. -/
inductive GrammarCause where
  | className | superclassName | classBody | methodName | classEnd
  | functionName | literalParameters | functionParameters | methodParameters | parameterName
  | parametersEnd | functionBody | methodBody | variableName
  | variableEnd | expressionEnd | returnEnd | importEnd
  | ifCondition | ifConditionEnd | whileCondition | whileConditionEnd
  | forClauses | forConditionEnd | forClausesEnd | blockEnd
  | ternaryColon | propertyName | indexEnd | argumentsEnd | arrayEnd | elementSeparator
  | groupingEnd | superDot | superMethod | expression
  | tooManyParameters | tooManyArguments | assignmentTarget | referenceTarget
deriving DecidableEq, Repr

/-- The most parameters that a function may have. -/
def maxParameters : Nat := 8

/-- The most arguments that a call may have. -/
def maxArguments : Nat := 8

namespace GrammarCause

/-- What a report says of the cause. -/
def message : GrammarCause → String
  | className => "Expect class name."
  | superclassName => "Expect superclass name."
  | classBody => "Expect '\x7b' before class body."
  | methodName => "Expect method name."
  | classEnd => "Expect '\x7d' after class body."
  | functionName => "Expect function name."
  | literalParameters => "Expect '(' after 'fun'."
  | functionParameters => "Expect '(' after function name."
  | methodParameters => "Expect '(' after method name."
  | parameterName => "Expect parameter name."
  | parametersEnd => "Expect ')' after parameters."
  | functionBody => "Expect '\x7b' before function body."
  | methodBody => "Expect '\x7b' before method body."
  | variableName => "Expect variable name."
  | variableEnd => "Expect ';' after variable declaration."
  | expressionEnd => "Expect ';' after expression."
  | returnEnd => "Expect ';' after return value."
  | importEnd => "Expect ';' after module name."
  | ifCondition => "Expect '(' after 'if'."
  | ifConditionEnd => "Expect ')' after if condition."
  | whileCondition => "Expect '(' after 'while'."
  | whileConditionEnd => "Expect ')' after while condition."
  | forClauses => "Expect '(' after 'for'."
  | forConditionEnd => "Expect ';' after loop condition."
  | forClausesEnd => "Expect ')' after for clauses."
  | blockEnd => "Expect '\x7d' after block."
  | ternaryColon => "Expected ':' after ternary operator '?'."
  | propertyName => "Expect property name after '.'."
  | indexEnd => "Expect ']' after index."
  | argumentsEnd => "Expect ')' after arguments."
  | arrayEnd => "Expect ']' after array elements."
  | elementSeparator => "Expect ',' between array elements."
  | groupingEnd => "Expect ')' after expression."
  | superDot => "Expect '.' after 'super'."
  | superMethod => "Expect superclass method name."
  | expression => "Expect expression."
  | tooManyParameters => "Can't have more than " ++ toString maxParameters ++ " parameters."
  | tooManyArguments => "Can't have more than " ++ toString maxArguments ++ " arguments."
  | assignmentTarget => "Invalid assignment target."
  | referenceTarget => "Invalid reference target."

end GrammarCause

/-- A grammar error, with the token at which it was noticed. -/
structure GrammarError where
  token : Token
  cause : GrammarCause
deriving DecidableEq, Repr

/-- A place in a list of tokens. -/
structure Cursor where
  /-- The tokens still to be read, without the end. -/
  rest : List Token
  /-- The token for the end. -/
  eof : Token
  /-- The token read last. -/
  last : Option Token
  /-- The errors recorded so far. -/
  errors : Array GrammarError

namespace Cursor

/-- The token that is read next. -/
def peek (c : Cursor) : Token :=
  c.rest.headD c.eof

/-- The next token is of this kind. At the end no token is of any kind. -/
def check (c : Cursor) (kind : Kind) : Bool :=
  match c.rest with
  | t :: _ => t.kind == kind
  | [] => false

/-- Nothing is left to be read. -/
def atEnd (c : Cursor) : Bool :=
  c.rest.isEmpty

/-- The token read last is of this kind. -/
def after (c : Cursor) (kind : Kind) : Bool :=
  match c.last with
  | some t => t.kind == kind
  | none => false

/-- Reads a token. At the end there is none to read. -/
def advance (c : Cursor) : Cursor :=
  match c.rest with
  | t :: rest => { c with rest := rest, last := some t }
  | [] => c

/-- Records an error. -/
def record (c : Cursor) (token : Token) (cause : GrammarCause) : Cursor :=
  { c with errors := c.errors.push ⟨token, cause⟩ }

/-- The keywords at which reading goes on after an error. -/
def startsStatement : Kind → Bool
  | .classWord | .funWord | .varWord | .forWord | .ifWord | .whileWord | .returnWord
  | .importWord => true
  | _ => false

/-- Skips tokens up to the next statement: to behind a semicolon or to before a keyword that
starts a statement. -/
def skip (last : Token) : List Token → Token × List Token
  | [] => (last, [])
  | t :: rest =>
    if last.kind == .semicolon || startsStatement t.kind then (last, t :: rest) else skip t rest

/-- Goes on with the next statement after an error. The token at which the error was noticed is
skipped in any case. -/
def synchronize (c : Cursor) : Cursor :=
  match c.rest with
  | [] => c
  | t :: rest =>
    let (last, rest) := skip t rest
    { c with rest := rest, last := some last }

end Cursor

/-- Why a parser gave up. -/
inductive ParseFailure where
  /-- The statement is wrong. -/
  | error (e : GrammarError)
  /-- The bound on the depth was too small. -/
  | exhausted

/-- A parser reads from a cursor and leaves one behind, also when it fails. -/
abbrev Parse := EStateM ParseFailure Cursor

namespace Parse

/-- The bound on the depth was too small. -/
def exhausted {α : Type} : Parse α :=
  throw .exhausted

/-- Fails at the token that is next. -/
def failHere {α : Type} (cause : GrammarCause) : Parse α := do
  throw (.error ⟨(← get).peek, cause⟩)

/-- Records an error at a token and goes on. -/
def record (token : Token) (cause : GrammarCause) : Parse Unit :=
  modify (·.record token cause)

/-- The next token is of this kind. -/
def check (kind : Kind) : Parse Bool :=
  return (← get).check kind

/-- Nothing is left to be read. -/
def atEnd : Parse Bool :=
  return (← get).atEnd

/-- Reads the next token if it passes a test on its kind. -/
def acceptIf (test : Kind → Bool) : Parse (Option Token) := do
  match (← get).rest with
  | t :: _ =>
    if test t.kind then
      modify Cursor.advance
      return some t
    else return none
  | [] => return none

/-- Reads the next token if it is of this kind. -/
def accept (kind : Kind) : Parse (Option Token) :=
  acceptIf (· == kind)

/-- Reads a token of this kind, or fails. -/
def expect (kind : Kind) (cause : GrammarCause) : Parse Token := do
  match ← accept kind with
  | some t => return t
  | none => failHere cause

/-- Ends a statement: with a semicolon or a line break, which may be missing where the statement
cannot go on anyway, that is before a closing brace, before `else`, at the end, and behind a closing
brace. -/
def terminator (cause : GrammarCause) : Parse Unit := do
  match ← accept .semicolon with
  | some _ => return
  | none =>
    let c ← get
    if c.check .rightBrace || c.check .elseWord || c.atEnd || c.after .rightBrace then return
    else failHere cause

/-- Reads a statement; after an error there is none, the error is recorded and reading goes on at
the next statement. -/
def recovering (p : Parse Stmt) : Parse (Option Stmt) := fun c ↦
  match p c with
  | .ok s c => .ok (some s) c
  | .error (.error e) c => .ok none (c.record e.token e.cause).synchronize
  | .error .exhausted c => .error .exhausted c

end Parse

end AliasScript
