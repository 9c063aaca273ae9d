import AliasScript.Program
import AliasScript.Proofs.Token.Scanned
import Mathlib.Data.List.Forall2
import Mathlib.Data.Option.Basic

/-!
# Programs that are alike

Two programs are alike if they are the same but for their tokens, and tokens in the same place are
alike. A `Likeness` says when tokens are: there is one relation for the tokens that are uses of
names, by whose indices distances are looked up, and a weaker one for all others, of which at most
what they say matters.

A program is like itself if its uses of names are (`Walks.alike_self` says it of every node that a
walk comes to).
-/

namespace AliasScript

/-- When tokens are alike, as uses of names and otherwise. Tokens that are alike say the same. -/
structure Likeness where
  use : Token → Token → Prop
  mark : Token → Token → Prop
  mark_of_use : ∀ {t t' : Token}, use t t' → mark t t'
  content_eq : ∀ {t t' : Token}, mark t t' → t.content = t'.content

namespace Likeness

/-- Tokens that are the same. -/
def same : Likeness :=
  ⟨Eq, Eq, id, congrArg Token.content⟩

variable {L : Likeness} {t t' : Token}

theorem kind_eq (h : L.mark t t') : t.kind = t'.kind :=
  congrArg Prod.fst (L.content_eq h)

theorem lexeme_eq (h : L.mark t t') : t.lexeme = t'.lexeme :=
  congrArg (·.2.1) (L.content_eq h)

theorem value_eq (h : L.mark t t') : t.value = t'.value :=
  congrArg (·.2.2) (L.content_eq h)

end Likeness

mutual

/-- Expressions that are alike. -/
inductive Expr.Alike (L : Likeness) : Expr → Expr → Prop
  | literal {value : Literal} : Expr.Alike L (.literal value) (.literal value)
  | variable {name name' : Token} : L.use name name' →
      Expr.Alike L (.variable name) (.variable name')
  | this {keyword keyword' : Token} : L.use keyword keyword' →
      Expr.Alike L (.this keyword) (.this keyword')
  | super {keyword keyword' method method' : Token} : L.use keyword keyword' →
      L.mark method method' → Expr.Alike L (.super keyword method) (.super keyword' method')
  | array {bracket bracket' : Token} {elements elements' : List Expr} : L.mark bracket bracket' →
      List.Forall₂ (Expr.Alike L) elements elements' →
      Expr.Alike L (.array bracket elements) (.array bracket' elements')
  | grouping {inner inner' : Expr} : Expr.Alike L inner inner' →
      Expr.Alike L (.grouping inner) (.grouping inner')
  | function {f f' : Function} : Function.Alike L f f' →
      Expr.Alike L (.function f) (.function f')
  | unary {operator operator' : Token} {operand operand' : Expr} : L.mark operator operator' →
      Expr.Alike L operand operand' →
      Expr.Alike L (.unary operator operand) (.unary operator' operand')
  | reference {operator operator' : Token} {target target' : Expr} : L.mark operator operator' →
      Expr.Alike L target target' →
      Expr.Alike L (.reference operator target) (.reference operator' target')
  | binary {left left' right right' : Expr} {operator operator' : Token} :
      Expr.Alike L left left' → L.mark operator operator' → Expr.Alike L right right' →
      Expr.Alike L (.binary left operator right) (.binary left' operator' right')
  | logical {left left' right right' : Expr} {operator operator' : Token} :
      Expr.Alike L left left' → L.mark operator operator' → Expr.Alike L right right' →
      Expr.Alike L (.logical left operator right) (.logical left' operator' right')
  | ternary {condition condition' whenTrue whenTrue' whenFalse whenFalse' : Expr}
      {question question' : Token} : Expr.Alike L condition condition' →
      L.mark question question' → Expr.Alike L whenTrue whenTrue' →
      Expr.Alike L whenFalse whenFalse' →
      Expr.Alike L (.ternary condition question whenTrue whenFalse)
        (.ternary condition' question' whenTrue' whenFalse')
  | assign {name name' : Token} {value value' : Expr} : L.use name name' →
      Expr.Alike L value value' → Expr.Alike L (.assign name value) (.assign name' value')
  | call {callee callee' : Expr} {paren paren' : Token} {arguments arguments' : List Expr} :
      Expr.Alike L callee callee' → L.mark paren paren' →
      List.Forall₂ (Expr.Alike L) arguments arguments' →
      Expr.Alike L (.call callee paren arguments) (.call callee' paren' arguments')
  | get {object object' : Expr} {name name' : Token} : Expr.Alike L object object' →
      L.mark name name' → Expr.Alike L (.get object name) (.get object' name')
  | set {object object' value value' : Expr} {name name' : Token} :
      Expr.Alike L object object' → L.mark name name' → Expr.Alike L value value' →
      Expr.Alike L (.set object name value) (.set object' name' value')
  | subscript {object object' index index' : Expr} {bracket bracket' : Token} :
      Expr.Alike L object object' → L.mark bracket bracket' → Expr.Alike L index index' →
      Expr.Alike L (.subscript object bracket index) (.subscript object' bracket' index')
  | setElement {object object' index index' value value' : Expr} {bracket bracket' : Token} :
      Expr.Alike L object object' → L.mark bracket bracket' → Expr.Alike L index index' →
      Expr.Alike L value value' →
      Expr.Alike L (.setElement object bracket index value)
        (.setElement object' bracket' index' value')

/-- Functions that are alike. -/
inductive Function.Alike (L : Likeness) : Function → Function → Prop
  | mk {name name' : Option Token} {parameters parameters' : Option (List Token)}
      {body body' : List Stmt} : Option.Rel L.mark name name' →
      Option.Rel (List.Forall₂ L.mark) parameters parameters' →
      List.Forall₂ (Stmt.Alike L) body body' →
      Function.Alike L (.mk name parameters body) (.mk name' parameters' body')

/-- Statements that are alike. The name of a superclass is a use. -/
inductive Stmt.Alike (L : Likeness) : Stmt → Stmt → Prop
  | expression {value value' : Expr} : Expr.Alike L value value' →
      Stmt.Alike L (.expression value) (.expression value')
  | block {body body' : List Stmt} : List.Forall₂ (Stmt.Alike L) body body' →
      Stmt.Alike L (.block body) (.block body')
  | var {name name' : Token} {initial initial' : Option Expr} : L.mark name name' →
      Option.Rel (Expr.Alike L) initial initial' →
      Stmt.Alike L (.var name initial) (.var name' initial')
  | ifElse {keyword keyword' : Token} {condition condition' : Expr} {whenTrue whenTrue' : Stmt}
      {whenFalse whenFalse' : Option Stmt} : L.mark keyword keyword' →
      Expr.Alike L condition condition' → Stmt.Alike L whenTrue whenTrue' →
      Option.Rel (Stmt.Alike L) whenFalse whenFalse' →
      Stmt.Alike L (.ifElse keyword condition whenTrue whenFalse)
        (.ifElse keyword' condition' whenTrue' whenFalse')
  | loop {keyword keyword' : Token} {condition condition' : Expr} {body body' : Stmt} :
      L.mark keyword keyword' → Expr.Alike L condition condition' → Stmt.Alike L body body' →
      Stmt.Alike L (.loop keyword condition body) (.loop keyword' condition' body')
  | ret {keyword keyword' : Token} {value value' : Option Expr} : L.mark keyword keyword' →
      Option.Rel (Expr.Alike L) value value' →
      Stmt.Alike L (.ret keyword value) (.ret keyword' value')
  | importModule {keyword keyword' : Token} {name name' : Expr} : L.mark keyword keyword' →
      Expr.Alike L name name' →
      Stmt.Alike L (.importModule keyword name) (.importModule keyword' name')
  | classDecl {name name' : Token} {superclass superclass' : Option Token}
      {methods methods' classMethods classMethods' : List Function} : L.mark name name' →
      Option.Rel L.use superclass superclass' →
      List.Forall₂ (Function.Alike L) methods methods' →
      List.Forall₂ (Function.Alike L) classMethods classMethods' →
      Stmt.Alike L (.classDecl name superclass methods classMethods)
        (.classDecl name' superclass' methods' classMethods')

end

theorem Expr.Alike.isPlace_eq {L : Likeness} {e e' : Expr} (h : e.Alike L e') :
    e.isPlace = e'.isPlace := by
  cases h <;> rfl

end AliasScript
