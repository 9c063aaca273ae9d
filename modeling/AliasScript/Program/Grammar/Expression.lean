import AliasScript.Program.Grammar.Operator

/-!
# The grammar of expressions

From the tightest to the loosest: primaries, calls and what else follows an operand, prefix
operators, the table of binary operators, the conditional, assignment, and the comma.
-/

namespace AliasScript

namespace Grammar

variable (g : Grammar)

/-! ### Primaries and calls -/

/-- Parameter names up to the last that no comma follows, of which `count` were read before. -/
def parametersFrom : Nat → Nat → Parse (List Token)
  | 0, _ => .exhausted
  | n + 1, count => do
    if maxParameters ≤ count then Parse.record (← get).peek .tooManyParameters
    let parameter ← Parse.expect .identifier .parameterName
    match ← Parse.accept .comma with
    | some _ => return parameter :: (← parametersFrom n (count + 1))
    | none => return [parameter]

/-- The parentheses around parameters and what is between them. -/
def parameterList (opening : GrammarCause) : Parse (List Token) := do
  let _ ← Parse.expect .leftParen opening
  let parameters ← if ← Parse.check .rightParen then pure [] else parametersFrom g.rounds 0
  let _ ← Parse.expect .rightParen .parametersEnd
  return parameters

/-- A body in braces. -/
def functionBody (opening : GrammarCause) : Parse (List Stmt) := do
  let _ ← Parse.expect .leftBrace opening
  g.block

/-- A function behind its name, or behind the keyword if it has none. -/
def functionFrom (name : Option Token) (opening : GrammarCause) : Parse Function := do
  let parameters ← parameterList g opening
  return .mk name (some parameters) (← functionBody g .functionBody)

/-- A method behind its name; without a parameter list it is a getter. -/
def methodFrom (name : Token) : Parse Function := do
  let parameters ←
    if ← Parse.check .leftParen then some <$> parameterList g .methodParameters else pure none
  return .mk (some name) parameters (← functionBody g .methodBody)

/-- Array elements and the closing bracket. A comma may stand behind the last element. -/
def elementsFrom : Nat → Parse (List Expr)
  | 0 => .exhausted
  | n + 1 => do
    match ← Parse.accept .rightBracket with
    | some _ => return []
    | none =>
      if ← Parse.atEnd then Parse.failHere .arrayEnd
      let element ← g.assignment
      unless ← Parse.check .rightBracket do
        let _ ← Parse.expect .comma .elementSeparator
      return element :: (← elementsFrom n)

/-- Arguments up to the last that no comma follows, of which `count` were read before. -/
def argumentsFrom : Nat → Nat → Parse (List Expr)
  | 0, _ => .exhausted
  | n + 1, count => do
    if maxArguments ≤ count then Parse.record (← get).peek .tooManyArguments
    let argument ← g.assignment
    match ← Parse.accept .comma with
    | some _ => return argument :: (← argumentsFrom n (count + 1))
    | none => return [argument]

/-- A call behind its opening parenthesis. -/
def callFrom (callee : Expr) : Parse Expr := do
  let arguments ← if ← Parse.check .rightParen then pure [] else argumentsFrom g g.rounds 0
  let paren ← Parse.expect .rightParen .argumentsEnd
  return .call callee paren arguments

/-- The primary that starts with a token. -/
def primaryFrom (t : Token) : Parse Expr :=
  match t.kind with
  | .trueWord => return .literal (.bool true)
  | .falseWord => return .literal (.bool false)
  | .nilWord => return .literal .nil
  | .number | .string => return .literal t.value
  | .funWord => .function <$> functionFrom g none .literalParameters
  | .leftBracket => .array t <$> elementsFrom g g.rounds
  | .leftParen => do
    let inner ← g.expression
    let _ ← Parse.expect .rightParen .groupingEnd
    return .grouping inner
  | .identifier => return .variable t
  | .thisWord => return .this t
  | _ => do
    let _ ← Parse.expect .dot .superDot
    let method ← Parse.expect .identifier .superMethod
    return .super t method

/-- The tokens that start a primary. -/
def startsPrimary : Kind → Bool
  | .trueWord | .falseWord | .nilWord | .number | .string | .funWord | .leftBracket | .leftParen
  | .identifier | .thisWord | .superWord => true
  | _ => false

/-- An operand without anything before or behind it. -/
def primary : Parse Expr := do
  match ← Parse.acceptIf startsPrimary with
  | some t => primaryFrom g t
  | none => Parse.failHere .expression

/-- The tokens that go on behind an expression. -/
def startsPostfix : Kind → Bool
  | .leftParen | .dot | .leftBracket => true
  | _ => false

/-- Goes on behind an expression as long as calls, properties or subscripts follow. -/
def postfixFrom : Nat → Expr → Parse Expr
  | 0, _ => .exhausted
  | n + 1, e => do
    match ← Parse.acceptIf startsPostfix with
    | none => return e
    | some t =>
      match t.kind with
      | .leftParen => postfixFrom n (← callFrom g e)
      | .dot =>
        let name ← Parse.expect .identifier .propertyName
        postfixFrom n (.get e name)
      | _ =>
        let index ← g.assignment
        let bracket ← Parse.expect .rightBracket .indexEnd
        postfixFrom n (.subscript e bracket index)

/-- An operand with the calls, properties and subscripts behind it. -/
def postfixExpr : Parse Expr := do
  postfixFrom g g.rounds (← primary g)

/-! ### From prefix operators to the comma -/

/-- The tokens that stand before an operand. -/
def startsUnary : Kind → Bool
  | .bang | .minus | .ampersand => true
  | _ => false

/-- An operand with its prefix operators. What no place is cannot be referred to; the error is
recorded, and the operand stands for itself. -/
def unaryHere : Parse Expr := do
  match ← Parse.acceptIf startsUnary with
  | none => postfixExpr g
  | some operator =>
    let operand ← g.unary
    if operator.kind == .ampersand then
      if operand.isPlace then return .reference operator operand
      else
        Parse.record operator .referenceTarget
        return operand
    else return .unary operator operand

/-- Operands and binary operators other than the comma. -/
def operation : Parse Expr :=
  ladder g.rounds (unaryHere g) levels

/-- A conditional, or what is tighter. Its first branch is no conditional itself. -/
def ternaryHere : Parse Expr := do
  let condition ← operation g
  match ← Parse.accept .question with
  | none => return condition
  | some question =>
    let whenTrue ← operation g
    let _ ← Parse.expect .colon .ternaryColon
    return .ternary condition question whenTrue (← g.ternary)

/-- The assignment of a value to a place, if the expression is one. -/
def assignment? : Expr → Expr → Option Expr
  | .variable name, value => some (.assign name value)
  | .get object name, value => some (.set object name value)
  | .subscript object bracket index, value => some (.setElement object bracket index value)
  | _, _ => none

/-- An assignment, or what is tighter. Where the left side is no place, the error is recorded and
the left side stands for the whole. -/
def assignmentHere : Parse Expr := do
  let target ← ternaryHere g
  match ← Parse.accept .equal with
  | none => return target
  | some equal =>
    let value ← g.assignment
    match assignment? target value with
    | some e => return e
    | none =>
      Parse.record equal .assignmentTarget
      return target

/-- A whole expression. -/
def expressionHere : Parse Expr :=
  chain g.rounds commaLevel (assignmentHere g)

end Grammar

end AliasScript
