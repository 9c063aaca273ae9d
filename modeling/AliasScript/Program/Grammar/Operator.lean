import AliasScript.Program.Cursor

/-!
# Grammars and operators

A grammar holds the parsers for what is nested inside. The clauses of the language take one, so
each of them is a plain definition, and the recursion is added at the end. Binary operators stand
in a table, by the levels of their precedence.
-/

namespace AliasScript

/-- The parsers for what is nested inside, and a bound on the number of items in a sequence. -/
structure Grammar where
  rounds : Nat
  unary : Parse Expr
  ternary : Parse Expr
  assignment : Parse Expr
  expression : Parse Expr
  statement : Parse Stmt
  /-- The statements up to a closing brace, and the brace. -/
  block : Parse (List Stmt)

namespace Grammar

/-! ### Operators -/

/-- A level of binary operators that group to the left. -/
structure Level where
  operators : List Kind
  node : Expr → Token → Expr → Expr

/-- The binary operators, the loosest first. -/
def levels : List Level :=
  [⟨[.orWord], .logical⟩,
    ⟨[.andWord], .logical⟩,
    ⟨[.bangEqual, .equalEqual], .binary⟩,
    ⟨[.greater, .greaterEqual, .less, .lessEqual], .binary⟩,
    ⟨[.plus, .minus], .binary⟩,
    ⟨[.slash, .star, .percent], .binary⟩]

/-- The comma, which is looser than all others. -/
def commaLevel : Level :=
  ⟨[.comma], .binary⟩

/-- Goes on behind a left operand as long as operators of the level follow. -/
def chainFrom (level : Level) (operand : Parse Expr) : Nat → Expr → Parse Expr
  | 0, _ => .exhausted
  | n + 1, left => do
    match ← Parse.acceptIf level.operators.contains with
    | none => return left
    | some operator =>
      let right ← operand
      chainFrom level operand n (level.node left operator right)

/-- Operands with operators of one level between them. -/
def chain (rounds : Nat) (level : Level) (operand : Parse Expr) : Parse Expr := do
  chainFrom level operand rounds (← operand)

/-- Operands with operators of several levels between them, the loosest level first. -/
def ladder (rounds : Nat) (operand : Parse Expr) : List Level → Parse Expr
  | [] => operand
  | level :: tighter => chain rounds level (ladder rounds operand tighter)

end Grammar

end AliasScript
