import AliasScript.Program.Cursor

/-!
# Stratified trees

The trees that the grammar can say without more parentheses than the tree itself holds. Every
expression has a **rank**, the level of precedence of its outermost node; a tree is *stratified* if
each operand has a rank that its place allows, and if the tokens that a node keeps are of the kinds
that the node is written with.

Ranks decide all that concerns expressions. Three more rules concern statements: a branch or the
body of a loop declares nothing (`Stmt.isDeclaration`), an `else` belongs to the nearest `if`, so
what stands before it does not end in an `if` without one (`Stmt.endsOpen`), and a function has a
name exactly if it is a method or is declared as the variable of that name.
-/

namespace AliasScript

/-! ### Ranks -/

/-- The levels of precedence, the loosest first. -/
inductive Rank where
  | comma | assignment | ternary | disjunction | conjunction | equality | comparison | additive
  | multiplicative | unary | call | primary
deriving DecidableEq, Repr

namespace Rank

/-- The place of a rank among all, from the loosest on. -/
def height : Rank → Nat
  | comma => 0 | assignment => 1 | ternary => 2 | disjunction => 3 | conjunction => 4
  | equality => 5 | comparison => 6 | additive => 7 | multiplicative => 8 | unary => 9
  | call => 10 | primary => 11

instance : LE Rank := ⟨fun a b ↦ a.height ≤ b.height⟩

instance : LT Rank := ⟨fun a b ↦ a.height < b.height⟩

instance (a b : Rank) : Decidable (a ≤ b) := inferInstanceAs (Decidable (a.height ≤ b.height))

instance (a b : Rank) : Decidable (a < b) := inferInstanceAs (Decidable (a.height < b.height))

/-- The height tells one rank from another. -/
theorem height_injective {a b : Rank} (h : a.height = b.height) : a = b := by
  cases a <;> cases b <;> first | rfl | cases h

theorem le_def {a b : Rank} : a ≤ b ↔ a.height ≤ b.height := Iff.rfl

theorem lt_def {a b : Rank} : a < b ↔ a.height < b.height := Iff.rfl

theorem le_refl (a : Rank) : a ≤ a := Nat.le_refl _

theorem le_trans {a b c : Rank} (h : a ≤ b) (h' : b ≤ c) : a ≤ c := Nat.le_trans h h'

theorem not_le_of_lt {a b : Rank} (h : a < b) : ¬ b ≤ a := Nat.not_le_of_lt h

theorem le_of_lt {a b : Rank} (h : a < b) : a ≤ b := Nat.le_of_lt h

theorem lt_of_lt_of_le {a b c : Rank} (h : a < b) (h' : b ≤ c) : a < c := Nat.lt_of_lt_of_le h h'

end Rank

namespace Kind

/-- The rank of a binary operator whose operands are both evaluated. -/
def binaryRank? : Kind → Option Rank
  | .comma => some .comma
  | .bangEqual | .equalEqual => some .equality
  | .greater | .greaterEqual | .less | .lessEqual => some .comparison
  | .plus | .minus => some .additive
  | .slash | .star | .percent => some .multiplicative
  | _ => none

/-- The rank of a logical operator. -/
def logicalRank? : Kind → Option Rank
  | .orWord => some .disjunction
  | .andWord => some .conjunction
  | _ => none

end Kind

/-- The rank of an expression, which is that of its outermost node. -/
def Expr.rank : Expr → Rank
  | .literal _ | .variable _ | .this _ | .super _ _ | .array _ _ | .grouping _ | .function _ =>
    .primary
  | .call _ _ _ | .get _ _ | .subscript _ _ _ => .call
  | .unary _ _ | .reference _ _ => .unary
  | .binary _ operator _ => operator.kind.binaryRank?.getD .comma
  | .logical _ operator _ => operator.kind.logicalRank?.getD .disjunction
  | .ternary _ _ _ _ => .ternary
  | .assign _ _ | .set _ _ _ | .setElement _ _ _ _ => .assignment

/-! ### Statements -/

namespace Stmt

/-- The statements that declare a name: they stand in sequences only. -/
def isDeclaration : Stmt → Bool
  | .var _ _ | .classDecl _ _ _ _ => true
  | _ => false

/-- The statements that an `else` behind them would go on with: they end in an `if` without one. -/
def endsOpen : Stmt → Bool
  | .ifElse _ _ _ none => true
  | .ifElse _ _ _ (some whenFalse) => whenFalse.endsOpen
  | .loop _ _ body => body.endsOpen
  | _ => false

end Stmt

/-! ### Trees -/

/-- A parameter list is made of names, and not of too many. -/
def ParametersStratified (parameters : List Token) : Prop :=
  parameters.length ≤ maxParameters ∧ ∀ t ∈ parameters, t.kind = .identifier

mutual

/-- The expression is stratified, and so is all that is inside it. -/
def Expr.Stratified : Expr → Prop
  | .literal _ => True
  | .variable name => name.kind = .identifier
  | .this keyword => keyword.kind = .thisWord
  | .super keyword method => keyword.kind = .superWord ∧ method.kind = .identifier
  | .array bracket elements => bracket.kind = .leftBracket ∧ ExprsStratified elements
  | .grouping inner => inner.Stratified
  | .function declaration =>
    declaration.name = none ∧ declaration.parameters.isSome ∧ declaration.Stratified
  | .unary operator operand =>
    (operator.kind = .minus ∨ operator.kind = .bang) ∧ operand.Stratified ∧ .unary ≤ operand.rank
  | .reference operator target =>
    operator.kind = .ampersand ∧ target.Stratified ∧ target.isPlace
  | .binary left operator right =>
    ∃ rank, operator.kind.binaryRank? = some rank ∧
      left.Stratified ∧ rank ≤ left.rank ∧ right.Stratified ∧ rank < right.rank
  | .logical left operator right =>
    ∃ rank, operator.kind.logicalRank? = some rank ∧
      left.Stratified ∧ rank ≤ left.rank ∧ right.Stratified ∧ rank < right.rank
  | .ternary condition question whenTrue whenFalse =>
    question.kind = .question ∧ condition.Stratified ∧ .disjunction ≤ condition.rank ∧
      whenTrue.Stratified ∧ .disjunction ≤ whenTrue.rank ∧
      whenFalse.Stratified ∧ .ternary ≤ whenFalse.rank
  | .assign name value =>
    name.kind = .identifier ∧ value.Stratified ∧ .assignment ≤ value.rank
  | .call callee paren arguments =>
    paren.kind = .rightParen ∧ callee.Stratified ∧ .call ≤ callee.rank ∧
      arguments.length ≤ maxArguments ∧ ExprsStratified arguments
  | .get object name => object.Stratified ∧ .call ≤ object.rank ∧ name.kind = .identifier
  | .set object name value =>
    object.Stratified ∧ .call ≤ object.rank ∧ name.kind = .identifier ∧
      value.Stratified ∧ .assignment ≤ value.rank
  | .subscript object bracket index =>
    object.Stratified ∧ .call ≤ object.rank ∧ bracket.kind = .rightBracket ∧
      index.Stratified ∧ .assignment ≤ index.rank
  | .setElement object bracket index value =>
    object.Stratified ∧ .call ≤ object.rank ∧ bracket.kind = .rightBracket ∧
      index.Stratified ∧ .assignment ≤ index.rank ∧ value.Stratified ∧ .assignment ≤ value.rank

/-- Arguments and elements: a comma separates them, so none of them is looser than an assignment. -/
def ExprsStratified : List Expr → Prop
  | [] => True
  | e :: rest => e.Stratified ∧ .assignment ≤ e.rank ∧ ExprsStratified rest

/-- The parameters and the body of the function are stratified. -/
def Function.Stratified : Function → Prop
  | .mk _ parameters body => (∀ ts ∈ parameters, ParametersStratified ts) ∧ StmtsStratified body

/-- Methods have names; without parameters they are getters. -/
def MethodsStratified : List Function → Prop
  | [] => True
  | f :: rest =>
    (∃ name, f.name = some name ∧ name.kind = .identifier) ∧ f.Stratified ∧ MethodsStratified rest

/-- The statement is stratified, and so is all that is inside it. -/
def Stmt.Stratified : Stmt → Prop
  | .expression value => value.Stratified
  | .block body => StmtsStratified body
  | .var name none => name.kind = .identifier
  | .var name (some (.function declaration)) =>
    name.kind = .identifier ∧ (declaration.name = none ∨ declaration.name = some name) ∧
      declaration.parameters.isSome ∧ declaration.Stratified
  | .var name (some initial) => name.kind = .identifier ∧ initial.Stratified
  | .ifElse keyword condition whenTrue none =>
    keyword.kind = .ifWord ∧ condition.Stratified ∧ whenTrue.Stratified ∧
      whenTrue.isDeclaration = false
  | .ifElse keyword condition whenTrue (some whenFalse) =>
    keyword.kind = .ifWord ∧ condition.Stratified ∧ whenTrue.Stratified ∧
      whenTrue.isDeclaration = false ∧ whenTrue.endsOpen = false ∧
      whenFalse.Stratified ∧ whenFalse.isDeclaration = false
  | .loop keyword condition body =>
    (keyword.kind = .whileWord ∨ keyword.kind = .forWord) ∧ condition.Stratified ∧
      body.Stratified ∧ body.isDeclaration = false
  | .ret keyword none => keyword.kind = .returnWord
  | .ret keyword (some value) => keyword.kind = .returnWord ∧ value.Stratified
  | .importModule keyword name => keyword.kind = .importWord ∧ name.Stratified
  | .classDecl name superclass methods classMethods =>
    name.kind = .identifier ∧ (∀ t ∈ superclass, t.kind = .identifier) ∧
      MethodsStratified methods ∧ MethodsStratified classMethods

/-- The statements are stratified, each by itself. -/
def StmtsStratified : List Stmt → Prop
  | [] => True
  | s :: rest => s.Stratified ∧ StmtsStratified rest

end

/-! ### Ranks of stratified trees -/

/-- The rank is that of a binary operator. -/
def BinaryRank (rank : Rank) : Prop :=
  rank ≠ .assignment ∧ rank ≠ .ternary ∧ rank < .unary

instance (rank : Rank) : Decidable (BinaryRank rank) :=
  inferInstanceAs (Decidable (_ ∧ _ ∧ _))

/-- Operators with two operands have ranks of their own. -/
theorem Kind.binaryRank_of_binaryRank? {kind : Kind} {rank : Rank}
    (h : kind.binaryRank? = some rank) : BinaryRank rank := by
  cases kind <;> cases h <;> decide

/-- So have logical operators. -/
theorem Kind.binaryRank_of_logicalRank? {kind : Kind} {rank : Rank}
    (h : kind.logicalRank? = some rank) : BinaryRank rank := by
  cases kind <;> cases h <;> decide

/-- A stratified binary expression has the rank of its operator. -/
theorem binaryRank_binary {left right : Expr} {operator : Token}
    (h : (Expr.binary left operator right).Stratified) :
    BinaryRank (Expr.binary left operator right).rank := by
  obtain ⟨rank, hop, -⟩ := h
  simpa [Expr.rank, hop] using Kind.binaryRank_of_binaryRank? hop

/-- A stratified logical expression has the rank of its operator. -/
theorem binaryRank_logical {left right : Expr} {operator : Token}
    (h : (Expr.logical left operator right).Stratified) :
    BinaryRank (Expr.logical left operator right).rank := by
  obtain ⟨rank, hop, -⟩ := h
  simpa [Expr.rank, hop] using Kind.binaryRank_of_logicalRank? hop

/-- Binary operators are looser than all that stands at operands. -/
theorem BinaryRank.not_le {rank rank' : Rank} (h : BinaryRank rank) (hle : .unary ≤ rank') :
    ¬ rank' ≤ rank :=
  Rank.not_le_of_lt (Rank.lt_of_lt_of_le h.2.2 hle)

/-- A place binds as tightly as a call, so it stands before `=` without parentheses. -/
theorem call_le_rank_of_isPlace {e : Expr} (h : e.isPlace = true) : .call ≤ e.rank := by
  cases e <;> first | exact Nat.le_refl _ | exact Nat.le_succ _ | cases h

end AliasScript
