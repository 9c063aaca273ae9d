import AliasScript.Program.Grammar
import AliasScript.Proofs.Program.Names
import AliasScript.Proofs.Program.Stratified

/-!
# Spellings

Which tokens say a tree, with no regard to precedence: the tokens of a binary node are those of its
left operand, its operator and those of its right operand, whatever the operands are. One list of
tokens may so spell many trees; which of them it says is left to `Expr.Stratified`.

A tree has more than one spelling where the language leaves a choice: a semicolon may be missing
where a statement ends anyway (`Ends`), a comma may stand behind the last element of an array, and a
loop may be written with either keyword.

Where a statement ends depends on the token behind it, so the phrases that hold statements carry the
kind of that token.
-/

namespace AliasScript

/-! ### The token behind -/

/-- The kind of the first token, or of what stands behind if there is none. -/
def nextKind (tokens : List Token) (next : Option Kind) : Option Kind :=
  match tokens with
  | [] => next
  | t :: _ => some t.kind

@[simp] theorem nextKind_nil (next : Option Kind) : nextKind [] next = next := rfl

@[simp] theorem nextKind_cons (t : Token) (tokens : List Token) (next : Option Kind) :
    nextKind (t :: tokens) next = some t.kind := rfl

/-- In two lists one behind the other, the second tells what is next at the end of the first. -/
@[simp] theorem nextKind_append (a b : List Token) (next : Option Kind) :
    nextKind (a ++ b) next = nextKind a (nextKind b next) := by
  cases a <;> rfl

/-- The rank of the node that a token behind an expression goes on with. -/
def Kind.continuation? (kind : Kind) : Option Rank :=
  match kind with
  | .leftParen | .dot | .leftBracket => some .call
  | .question => some .ternary
  | .equal => some .assignment
  | _ => kind.binaryRank?.or kind.logicalRank?

/-- Behind an expression of the rank nothing goes on with it. -/
def Stops (rank : Rank) (next : Option Kind) : Prop :=
  ∀ kind ∈ next, ∀ r ∈ kind.continuation?, r < rank

/-- Where a loose rank stops, a tight one does too. -/
theorem Stops.mono {rank rank' : Rank} {next : Option Kind} (h : Stops rank next)
    (hle : rank ≤ rank') : Stops rank' next :=
  fun kind hkind r hr ↦ Rank.lt_of_lt_of_le (h kind hkind r hr) hle

/-- At the end of the input every rank stops. -/
theorem stops_none (rank : Rank) : Stops rank none :=
  fun _ h ↦ nomatch h

/-- A rank stops before a kind that continues nothing as tight. -/
theorem stops_some {rank : Rank} {kind : Kind} (h : ∀ r ∈ kind.continuation?, r < rank) :
    Stops rank (some kind) := by
  rintro _ ⟨⟩
  exact h

/-- A token of a kind that goes on with nothing tighter stops an expression. -/
theorem stops_of_kind {rank : Rank} {t : Token} {kind : Kind} (h : t.kind = kind)
    (hkind : ∀ r ∈ kind.continuation?, r < rank) (r : List Token) :
    Stops rank (nextKind (t :: r) none) := by
  rw [nextKind_cons, h]
  exact stops_some hkind

/-- How a statement ends whose tokens so far are `written`: with a semicolon, or without one before
a closing brace, before `else`, at the end, or behind a closing brace if nothing goes on there. -/
def Ends (written ends : List Token) (next : Option Kind) : Prop :=
  (∃ t, ends = [t] ∧ t.kind = .semicolon) ∨
    (ends = [] ∧
      (next = none ∨ next = some .rightBrace ∨ next = some .elseWord ∨
        (∃ t, written.getLast? = some t ∧ t.kind = .rightBrace) ∧ next ≠ some .semicolon ∧
          Stops .comma next))

/-- Behind a statement no expression goes on. -/
theorem Ends.stops {written ends later : List Token}
    (h : Ends written ends (nextKind later none)) :
    Stops .comma (nextKind (ends ++ later) none) := by
  rcases h with ⟨t, rfl, ht⟩ | ⟨rfl, h | h | h | ⟨-, -, h⟩⟩
  · exact stops_of_kind ht (by decide) _
  · rw [List.nil_append, h]
    exact stops_none _
  · rw [List.nil_append, h]
    exact stops_some (by decide)
  · rw [List.nil_append, h]
    exact stops_some (by decide)
  · exact h

/-! ### Phrases -/

/-- The parts of a program that have a spelling. -/
inductive Phrase where
  | expr (e : Expr)
  | arguments (es : List Expr)
  | elements (es : List Expr)
  /-- A function behind its name or its keyword. -/
  | function (f : Function)
  | methods (methods classMethods : List Function)
  /-- A variable declaration or an expression, with its end. -/
  | clause (s : Stmt) (next : Option Kind)
  | stmt (s : Stmt) (next : Option Kind)
  | stmts (body : List Stmt) (next : Option Kind)
  /-- The clauses of a `for`, each of which may be missing. -/
  | initial (s : Option Stmt) (next : Option Kind)
  | condition (e : Expr)
  | increment (e : Option Expr)

/-- The value of a token that is a literal. -/
def Token.literal? (t : Token) : Option Literal :=
  match t.kind with
  | .trueWord => some (.bool true)
  | .falseWord => some (.bool false)
  | .nilWord => some .nil
  | .number | .string => some t.value
  | _ => none

/-- Names with commas between them. -/
inductive SpellsNames : List Token → List Token → Prop where
  | none : SpellsNames [] []
  | last (t : Token) : SpellsNames [t] [t]
  | cons {names tokens : List Token} (t comma : Token) : comma.kind = .comma → names ≠ [] →
      SpellsNames names tokens → SpellsNames (t :: names) (t :: comma :: tokens)

/-- The superclass behind the name of a class, if there is one. -/
inductive SpellsSuperclass : Option Token → List Token → Prop where
  | none : SpellsSuperclass none []
  | some (less t : Token) : less.kind = .less → SpellsSuperclass (some t) [less, t]

/-- The tokens spell the phrase. -/
inductive Spells : Phrase → List Token → Prop where
  | literal {v : Literal} {t : Token} : t.literal? = some v → Spells (.expr (.literal v)) [t]
  | name (name : Token) : Spells (.expr (.variable name)) [name]
  | this (keyword : Token) : Spells (.expr (.this keyword)) [keyword]
  | super {dot : Token} (keyword method : Token) : dot.kind = .dot →
      Spells (.expr (.super keyword method)) [keyword, dot, method]
  | array {es : List Expr} {ts : List Token} {close : Token} (bracket : Token) :
      Spells (.elements es) ts → close.kind = .rightBracket →
      Spells (.expr (.array bracket es)) (bracket :: (ts ++ [close]))
  | grouping {e : Expr} {ts : List Token} {opening close : Token} : opening.kind = .leftParen →
      Spells (.expr e) ts → close.kind = .rightParen →
      Spells (.expr (.grouping e)) (opening :: (ts ++ [close]))
  | literalFunction {f : Function} {ts : List Token} {keyword : Token} :
      keyword.kind = .funWord → f.name = none → Spells (.function f) ts →
      Spells (.expr (.function f)) (keyword :: ts)
  | unary {e : Expr} {ts : List Token} (operator : Token) : Spells (.expr e) ts →
      Spells (.expr (.unary operator e)) (operator :: ts)
  | reference {e : Expr} {ts : List Token} (operator : Token) : Spells (.expr e) ts →
      Spells (.expr (.reference operator e)) (operator :: ts)
  | binary {left right : Expr} {ts ts' : List Token} (operator : Token) : Spells (.expr left) ts →
      Spells (.expr right) ts' →
      Spells (.expr (.binary left operator right)) (ts ++ operator :: ts')
  | logical {left right : Expr} {ts ts' : List Token} (operator : Token) :
      Spells (.expr left) ts → Spells (.expr right) ts' →
      Spells (.expr (.logical left operator right)) (ts ++ operator :: ts')
  | ternary {condition whenTrue whenFalse : Expr} {ts ts' ts'' : List Token} {colon : Token}
      (question : Token) : Spells (.expr condition) ts → Spells (.expr whenTrue) ts' →
      colon.kind = .colon → Spells (.expr whenFalse) ts'' →
      Spells (.expr (.ternary condition question whenTrue whenFalse))
        (ts ++ question :: (ts' ++ colon :: ts''))
  | assign {value : Expr} {ts : List Token} {equal : Token} (name : Token) :
      equal.kind = .equal → Spells (.expr value) ts →
      Spells (.expr (.assign name value)) (name :: equal :: ts)
  | call {callee : Expr} {arguments : List Expr} {ts ts' : List Token} {opening : Token}
      (paren : Token) : Spells (.expr callee) ts → opening.kind = .leftParen →
      Spells (.arguments arguments) ts' →
      Spells (.expr (.call callee paren arguments)) (ts ++ opening :: (ts' ++ [paren]))
  | get {object : Expr} {ts : List Token} {dot : Token} (name : Token) : Spells (.expr object) ts →
      dot.kind = .dot → Spells (.expr (.get object name)) (ts ++ [dot, name])
  | set {object value : Expr} {ts ts' : List Token} {dot equal : Token} (name : Token) :
      Spells (.expr object) ts → dot.kind = .dot → equal.kind = .equal → Spells (.expr value) ts' →
      Spells (.expr (.set object name value)) (ts ++ dot :: name :: equal :: ts')
  | subscript {object index : Expr} {ts ts' : List Token} {opening : Token} (bracket : Token) :
      Spells (.expr object) ts → opening.kind = .leftBracket → Spells (.expr index) ts' →
      Spells (.expr (.subscript object bracket index)) (ts ++ opening :: (ts' ++ [bracket]))
  | setElement {object index value : Expr} {ts ts' ts'' : List Token} {opening equal : Token}
      (bracket : Token) : Spells (.expr object) ts → opening.kind = .leftBracket →
      Spells (.expr index) ts' → equal.kind = .equal → Spells (.expr value) ts'' →
      Spells (.expr (.setElement object bracket index value))
        (ts ++ opening :: (ts' ++ bracket :: equal :: ts''))
  -- Arguments and elements
  | noArguments : Spells (.arguments []) []
  | lastArgument {e : Expr} {ts : List Token} : Spells (.expr e) ts → Spells (.arguments [e]) ts
  | argument {e : Expr} {es : List Expr} {ts ts' : List Token} {comma : Token} :
      Spells (.expr e) ts → comma.kind = .comma → es ≠ [] → Spells (.arguments es) ts' →
      Spells (.arguments (e :: es)) (ts ++ comma :: ts')
  | noElements : Spells (.elements []) []
  | lastElement {e : Expr} {ts : List Token} : Spells (.expr e) ts → Spells (.elements [e]) ts
  | element {e : Expr} {es : List Expr} {ts ts' : List Token} {comma : Token} :
      Spells (.expr e) ts → comma.kind = .comma → Spells (.elements es) ts' →
      Spells (.elements (e :: es)) (ts ++ comma :: ts')
  -- Functions
  | getter {name : Option Token} {body : List Stmt} {ts : List Token} {opening close : Token} :
      opening.kind = .leftBrace → Spells (.stmts body (some .rightBrace)) ts →
      close.kind = .rightBrace →
      Spells (.function (.mk name none body)) (opening :: (ts ++ [close]))
  | function {name : Option Token} {parameters : List Token} {body : List Stmt}
      {ts ts' : List Token} {paren paren' opening close : Token} :
      paren.kind = .leftParen → SpellsNames parameters ts → paren'.kind = .rightParen →
      opening.kind = .leftBrace → Spells (.stmts body (some .rightBrace)) ts' →
      close.kind = .rightBrace →
      Spells (.function (.mk name (some parameters) body))
        (paren :: (ts ++ paren' :: opening :: (ts' ++ [close])))
  | noMethods : Spells (.methods [] []) []
  | method {f : Function} {methods classMethods : List Function} {name : Token}
      {ts ts' : List Token} : f.name = some name → Spells (.function f) ts →
      Spells (.methods methods classMethods) ts' →
      Spells (.methods (f :: methods) classMethods) (name :: (ts ++ ts'))
  | classMethod {f : Function} {methods classMethods : List Function} {keyword name : Token}
      {ts ts' : List Token} : keyword.kind = .classWord → f.name = some name →
      Spells (.function f) ts → Spells (.methods methods classMethods) ts' →
      Spells (.methods methods (f :: classMethods)) (keyword :: name :: (ts ++ ts'))
  -- Statements
  | expression {value : Expr} {ts ends : List Token} {next : Option Kind} :
      Spells (.expr value) ts → Ends ts ends next →
      Spells (.clause (.expression value) next) (ts ++ ends)
  | var {keyword : Token} {ends : List Token} {next : Option Kind} (name : Token) :
      keyword.kind = .varWord → Ends [name] ends next →
      Spells (.clause (.var name none) next) (keyword :: name :: ends)
  | varInitial {value : Expr} {keyword equal : Token} {ts ends : List Token} {next : Option Kind}
      (name : Token) : keyword.kind = .varWord → equal.kind = .equal → Spells (.expr value) ts →
      Ends ts ends next →
      Spells (.clause (.var name (some value)) next) (keyword :: name :: equal :: (ts ++ ends))
  | clause {s : Stmt} {next : Option Kind} {ts : List Token} : Spells (.clause s next) ts →
      Spells (.stmt s next) ts
  | block {body : List Stmt} {next : Option Kind} {ts : List Token} {opening close : Token} :
      opening.kind = .leftBrace → Spells (.stmts body (some .rightBrace)) ts →
      close.kind = .rightBrace → Spells (.stmt (.block body) next) (opening :: (ts ++ [close]))
  | ifThen {condition : Expr} {whenTrue : Stmt} {next : Option Kind} {ts ts' : List Token}
      {opening close : Token} (keyword : Token) : opening.kind = .leftParen →
      Spells (.expr condition) ts → close.kind = .rightParen → Spells (.stmt whenTrue next) ts' →
      next ≠ some .elseWord →
      Spells (.stmt (.ifElse keyword condition whenTrue none) next)
        (keyword :: opening :: (ts ++ close :: ts'))
  | ifElse {condition : Expr} {whenTrue whenFalse : Stmt} {next : Option Kind}
      {ts ts' ts'' : List Token} {opening close word : Token} (keyword : Token) :
      opening.kind = .leftParen → Spells (.expr condition) ts → close.kind = .rightParen →
      Spells (.stmt whenTrue (some .elseWord)) ts' → word.kind = .elseWord →
      Spells (.stmt whenFalse next) ts'' →
      Spells (.stmt (.ifElse keyword condition whenTrue (some whenFalse)) next)
        (keyword :: opening :: (ts ++ close :: (ts' ++ word :: ts'')))
  | whileLoop {condition : Expr} {body : Stmt} {next : Option Kind} {ts ts' : List Token}
      {opening close keyword : Token} : keyword.kind = .whileWord → opening.kind = .leftParen →
      Spells (.expr condition) ts → close.kind = .rightParen → Spells (.stmt body next) ts' →
      Spells (.stmt (.loop keyword condition body) next)
        (keyword :: opening :: (ts ++ close :: ts'))
  | forLoop {s : Stmt} {initial : Option Stmt} {condition : Expr} {increment : Option Expr}
      {body : Stmt} {next : Option Kind} {ts ts' ts'' ts''' : List Token}
      {keyword opening semicolon close : Token} : keyword.kind = .forWord →
      opening.kind = .leftParen →
      Spells (.initial initial (nextKind ts' (some .semicolon))) ts →
      Spells (.condition condition) ts' → semicolon.kind = .semicolon →
      Spells (.increment increment) ts'' → close.kind = .rightParen →
      Spells (.stmt body next) ts''' → body.isDeclaration = false →
      s = Grammar.desugarFor keyword initial condition increment body →
      Spells (.stmt s next)
        (keyword :: opening :: (ts ++ (ts' ++ semicolon :: (ts'' ++ close :: ts'''))))
  | noInitial {semicolon : Token} {next : Option Kind} : semicolon.kind = .semicolon →
      Spells (.initial none next) [semicolon]
  | initial {s : Stmt} {next : Option Kind} {ts : List Token} : Spells (.clause s next) ts →
      Spells (.initial (some s) next) ts
  | noCondition : Spells (.condition (.literal (.bool true))) []
  | condition {e : Expr} {ts : List Token} : Spells (.expr e) ts → Spells (.condition e) ts
  | noIncrement : Spells (.increment none) []
  | increment {e : Expr} {ts : List Token} : Spells (.expr e) ts → Spells (.increment (some e)) ts
  | ret {next : Option Kind} {ends : List Token} (keyword : Token) : Ends [keyword] ends next →
      (ends = [] → next ≠ some .elseWord) →
      Spells (.stmt (.ret keyword none) next) (keyword :: ends)
  | retValue {value : Expr} {next : Option Kind} {ts ends : List Token} (keyword : Token) :
      Spells (.expr value) ts → Ends ts ends next →
      Spells (.stmt (.ret keyword (some value)) next) (keyword :: (ts ++ ends))
  | importModule {name : Expr} {next : Option Kind} {ts ends : List Token} (keyword : Token) :
      Spells (.expr name) ts → Ends ts ends next →
      Spells (.stmt (.importModule keyword name) next) (keyword :: (ts ++ ends))
  | classDecl {superclass : Option Token} {methods classMethods : List Function}
      {next : Option Kind} {ts ts' : List Token} {keyword opening close : Token} (name : Token) :
      keyword.kind = .classWord → SpellsSuperclass superclass ts → opening.kind = .leftBrace →
      Spells (.methods methods classMethods) ts' → close.kind = .rightBrace →
      Spells (.stmt (.classDecl name superclass methods classMethods) next)
        (keyword :: name :: (ts ++ opening :: (ts' ++ [close])))
  | functionDeclaration {f : Function} {next : Option Kind} {ts : List Token}
      {keyword name : Token} :
      keyword.kind = .funWord → f.name = some name → f.parameters.isSome → Spells (.function f) ts →
      Spells (.stmt (.var name (some (.function f))) next) (keyword :: name :: ts)
  | noStmts {next : Option Kind} : Spells (.stmts [] next) []
  | stmts {s : Stmt} {body : List Stmt} {next : Option Kind} {ts ts' : List Token} :
      Spells (.stmt s (nextKind ts' next)) ts → Spells (.stmts body next) ts' →
      Spells (.stmts (s :: body) next) (ts ++ ts')

/-! ### Names and spellings -/

/-- The names in a phrase. -/
def Phrase.names : Phrase → List Token
  | .expr e | .condition e => e.names
  | .arguments es | .elements es => exprsNames es
  | .function f => f.names
  | .methods fs classFs => functionsNames fs ++ functionsNames classFs
  | .clause s _ | .stmt s _ => s.names
  | .stmts body _ => stmtsNames body
  | .initial s _ => s.elim [] Stmt.names
  | .increment e => e.elim [] Expr.names

/-- The tokens of a list of names cover the names. -/
theorem SpellsNames.covers {names tokens : List Token} (h : SpellsNames names tokens) :
    Covers tokens names := by
  induction h with
  | none => exact fun t ↦ Nat.le_refl _
  | last t => exact fun t ↦ Nat.le_refl _
  | cons t comma _ _ _ ih =>
    intro t'
    have := ih t'
    simp only [List.count_cons]
    omega

/-- The tokens of a superclass cover its name. -/
theorem SpellsSuperclass.covers {superclass : Option Token} {tokens : List Token}
    (h : SpellsSuperclass superclass tokens) : Covers tokens superclass.toList := by
  intro t
  cases h with
  | none => exact Nat.le_refl _
  | some less t' _ =>
    simp only [Option.toList_some, List.count_cons]
    omega

/-- The loop that a `for` stands for holds the names of its parts. -/
theorem count_names_desugarFor (keyword : Token) (initial : Option Stmt) (condition : Expr)
    (increment : Option Expr) (body : Stmt) (t : Token) :
    (Grammar.desugarFor keyword initial condition increment body).names.count t =
      (initial.elim [] Stmt.names).count t + condition.names.count t +
        (increment.elim [] Expr.names).count t + body.names.count t := by
  cases initial <;> cases increment <;>
    simp only [Grammar.desugarFor, Stmt.names, stmtsNames, Option.elim_none, Option.elim_some,
      List.count_append, List.count_nil] <;>
    omega

/-- **Every name of a phrase is a token of its own in each of its spellings.** -/
theorem Spells.covers {phrase : Phrase} {tokens : List Token} (h : Spells phrase tokens) :
    Covers tokens phrase.names := by
  intro t
  induction h with
  | function _ hnames _ _ _ _ ih =>
    have := hnames.covers t
    simp only [Phrase.names, Function.names, Option.getD_some, List.count_append,
      List.count_cons] at *
    omega
  | classDecl name _ hsuper _ _ _ ih =>
    have := hsuper.covers t
    simp only [Phrase.names, Stmt.names, List.count_append, List.count_cons] at *
    omega
  | forLoop _ _ _ _ _ _ _ _ _ hs ih₁ ih₂ ih₃ ih₄ =>
    subst hs
    simp only [Phrase.names, count_names_desugarFor, List.count_append, List.count_cons] at *
    omega
  | _ =>
    simp only [Phrase.names, Expr.names, exprsNames, Function.names, functionsNames, Stmt.names,
      stmtsNames, Option.elim_none, Option.elim_some, Option.getD_none, List.count_append,
      List.count_cons, List.count_nil, List.append_nil] at *
    omega

/-! ### The first token -/

/-- The tokens begin an expression. -/
def Begins (tokens : List Token) : Prop :=
  ∃ t rest, tokens = t :: rest ∧
    (Grammar.startsPrimary t.kind = true ∨ Grammar.startsUnary t.kind = true)

/-- What begins an expression is not empty. -/
theorem Begins.ne_nil {tokens : List Token} (h : Begins tokens) : tokens ≠ [] := by
  obtain ⟨t, rest, rfl, -⟩ := h
  exact List.cons_ne_nil t rest

/-- A token that starts no operand begins no expression. -/
theorem Begins.nextKind_ne {tokens : List Token} (h : Begins tokens) {kind : Kind}
    (hprimary : Grammar.startsPrimary kind = false) (hunary : Grammar.startsUnary kind = false)
    (next : Option Kind) : nextKind tokens next ≠ some kind := by
  obtain ⟨t, rest, rfl, ht⟩ := h
  rintro ⟨⟩
  simp [hprimary, hunary] at ht

/-- Where an expression begins, there is a next token. -/
theorem Begins.nextKind_ne_none {tokens : List Token} (h : Begins tokens) (next : Option Kind) :
    nextKind tokens next ≠ none := by
  obtain ⟨t, rest, rfl, -⟩ := h
  exact fun hnone ↦ nomatch hnone

/-- A literal starts an operand. -/
theorem startsPrimary_of_literal? {t : Token} {v : Literal} (h : t.literal? = some v) :
    Grammar.startsPrimary t.kind = true := by
  unfold Token.literal? at h
  split at h <;> simp_all [Grammar.startsPrimary]

/-- An expression begins with an operand or, if it is loose enough, with an operator before one. -/
theorem Spells.first {e : Expr} {tokens : List Token} (h : Spells (.expr e) tokens)
    (he : e.Stratified) :
    ∃ t rest, tokens = t :: rest ∧ (Grammar.startsPrimary t.kind = true ∨
      Grammar.startsUnary t.kind = true ∧ e.rank < .call) := by
  generalize hphrase : Phrase.expr e = phrase at h
  induction h generalizing e with
  | literal hv => exact ⟨_, _, rfl, .inl (startsPrimary_of_literal? hv)⟩
  | name name =>
    cases hphrase
    exact ⟨_, _, rfl, .inl (by rw [show name.kind = .identifier from he]; rfl)⟩
  | this keyword =>
    cases hphrase
    exact ⟨_, _, rfl, .inl (by rw [show keyword.kind = .thisWord from he]; rfl)⟩
  | super keyword method =>
    cases hphrase
    exact ⟨_, _, rfl, .inl (by rw [he.1]; rfl)⟩
  | array bracket =>
    cases hphrase
    exact ⟨_, _, rfl, .inl (by rw [he.1]; rfl)⟩
  | grouping hopening => exact ⟨_, _, rfl, .inl (by rw [hopening]; rfl)⟩
  | literalFunction hkeyword => exact ⟨_, _, rfl, .inl (by rw [hkeyword]; rfl)⟩
  | unary operator =>
    cases hphrase
    refine ⟨_, _, rfl, .inr ⟨?_, Nat.lt_succ_self _⟩⟩
    rcases he.1 with h | h <;> rw [h] <;> rfl
  | reference operator =>
    cases hphrase
    exact ⟨_, _, rfl, .inr ⟨by rw [he.1]; rfl, Nat.lt_succ_self _⟩⟩
  | binary operator _ _ ih =>
    cases hphrase
    have hlt := Rank.lt_of_lt_of_le (binaryRank_binary he).2.2 (by decide : Rank.unary ≤ .call)
    obtain ⟨rank, -, hleft, -⟩ := he
    obtain ⟨t, rest, rfl, ht⟩ := ih hleft rfl
    exact ⟨t, _, rfl, ht.imp_right fun h ↦ ⟨h.1, hlt⟩⟩
  | logical operator _ _ ih =>
    cases hphrase
    have hlt := Rank.lt_of_lt_of_le (binaryRank_logical he).2.2 (by decide : Rank.unary ≤ .call)
    obtain ⟨rank, -, hleft, -⟩ := he
    obtain ⟨t, rest, rfl, ht⟩ := ih hleft rfl
    exact ⟨t, _, rfl, ht.imp_right fun h ↦ ⟨h.1, hlt⟩⟩
  | ternary question _ _ _ _ ih =>
    cases hphrase
    obtain ⟨t, rest, rfl, ht⟩ := ih he.2.1 rfl
    exact ⟨t, _, rfl, ht.imp_right fun h ↦ ⟨h.1, (by decide : Rank.ternary < .call)⟩⟩
  | assign name =>
    cases hphrase
    exact ⟨_, _, rfl, .inl (by rw [he.1]; rfl)⟩
  | call paren _ _ _ ih =>
    cases hphrase
    obtain ⟨t, rest, rfl, ht⟩ := ih he.2.1 rfl
    exact ⟨t, _, rfl, ht.imp_right fun h ↦ absurd he.2.2.1 (Rank.not_le_of_lt h.2)⟩
  | get name _ _ ih | set name _ _ _ _ ih | subscript bracket _ _ _ ih
  | setElement bracket _ _ _ _ _ ih =>
    cases hphrase
    obtain ⟨t, rest, rfl, ht⟩ := ih he.1 rfl
    exact ⟨t, _, rfl, ht.imp_right fun h ↦ absurd he.2.1 (Rank.not_le_of_lt h.2)⟩
  | _ => cases hphrase

/-- **An expression begins with a token that starts one.** -/
theorem Spells.begins {e : Expr} {tokens : List Token} (h : Spells (.expr e) tokens)
    (he : e.Stratified) : Begins tokens := by
  obtain ⟨t, rest, rfl, ht⟩ := h.first he
  exact ⟨t, rest, rfl, ht.imp_right fun h ↦ h.1⟩

end AliasScript
