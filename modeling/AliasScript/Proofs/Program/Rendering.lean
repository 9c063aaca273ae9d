import AliasScript.Proofs.Program.Recognized

/-!
# Rendering programs

Tokens for every program: the tokens that its nodes keep, in their order, with marks and keywords
between them. Every statement that needs an end gets a semicolon. The tokens spell the program if it
is stratified, so all stratified programs can be written, and

* `Program.parse_eq_ok_iff`: **parsing gives exactly the stratified programs, each from its
  spellings**, and gives a rendered program back.
-/

namespace AliasScript

/-! ### Tokens of programs -/

/-- A mark or a keyword. -/
def Token.ofKind (kind : Kind) : Token :=
  ⟨kind, kind.spelling, 0, 0, 0, .nil⟩

/-- A token for a literal. Its lexeme does not matter. -/
def Literal.token : Literal → Token
  | .nil => .ofKind .nilWord
  | .bool true => .ofKind .trueWord
  | .bool false => .ofKind .falseWord
  | .num x => ⟨.number, "", 0, 0, 0, .num x⟩
  | .str s => ⟨.string, "", 0, 0, 0, .str s⟩

/-- Names with commas between them. -/
def namesTokens : List Token → List Token
  | [] => []
  | [t] => [t]
  | t :: t' :: rest => t :: .ofKind .comma :: namesTokens (t' :: rest)

/-- A superclass behind the name of a class. -/
def superclassTokens : Option Token → List Token
  | none => []
  | some t => [.ofKind .less, t]

/-- The end of a statement. -/
def endTokens : List Token :=
  [.ofKind .semicolon]

mutual

/-- The tokens of an expression. -/
def Expr.tokens : Expr → List Token
  | .literal value => [value.token]
  | .variable name => [name]
  | .this keyword => [keyword]
  | .super keyword method => [keyword, .ofKind .dot, method]
  | .array bracket elements => bracket :: (exprsTokens elements ++ [.ofKind .rightBracket])
  | .grouping inner => .ofKind .leftParen :: (inner.tokens ++ [.ofKind .rightParen])
  | .function declaration => .ofKind .funWord :: declaration.tokens
  | .unary operator operand => operator :: operand.tokens
  | .reference operator target => operator :: target.tokens
  | .binary left operator right => left.tokens ++ operator :: right.tokens
  | .logical left operator right => left.tokens ++ operator :: right.tokens
  | .ternary condition question whenTrue whenFalse =>
    condition.tokens ++ question :: (whenTrue.tokens ++ .ofKind .colon :: whenFalse.tokens)
  | .assign name value => name :: .ofKind .equal :: value.tokens
  | .call callee paren arguments =>
    callee.tokens ++ .ofKind .leftParen :: (exprsTokens arguments ++ [paren])
  | .get object name => object.tokens ++ [.ofKind .dot, name]
  | .set object name value =>
    object.tokens ++ .ofKind .dot :: name :: .ofKind .equal :: value.tokens
  | .subscript object bracket index =>
    object.tokens ++ .ofKind .leftBracket :: (index.tokens ++ [bracket])
  | .setElement object bracket index value =>
    object.tokens ++
      .ofKind .leftBracket :: (index.tokens ++ bracket :: .ofKind .equal :: value.tokens)

/-- Expressions with commas between them. -/
def exprsTokens : List Expr → List Token
  | [] => []
  | [e] => e.tokens
  | e :: e' :: rest => e.tokens ++ .ofKind .comma :: exprsTokens (e' :: rest)

/-- The tokens of a function behind its name. -/
def Function.tokens : Function → List Token
  | .mk _ none body => .ofKind .leftBrace :: (stmtsTokens body ++ [.ofKind .rightBrace])
  | .mk _ (some parameters) body =>
    .ofKind .leftParen :: (namesTokens parameters ++
      .ofKind .rightParen :: .ofKind .leftBrace :: (stmtsTokens body ++ [.ofKind .rightBrace]))

/-- Methods, each behind its name. -/
def methodsTokens : List Function → List Token
  | [] => []
  | f :: rest => f.name.toList ++ (f.tokens ++ methodsTokens rest)

/-- Class methods, each behind the keyword and its name. -/
def classMethodsTokens : List Function → List Token
  | [] => []
  | f :: rest => .ofKind .classWord :: (f.name.toList ++ (f.tokens ++ classMethodsTokens rest))

/-- The tokens of a statement. -/
def Stmt.tokens : Stmt → List Token
  | .expression value => value.tokens ++ endTokens
  | .block body => .ofKind .leftBrace :: (stmtsTokens body ++ [.ofKind .rightBrace])
  | .var name none => .ofKind .varWord :: name :: endTokens
  | .var name (some (.function f)) =>
    if f.name.isSome then .ofKind .funWord :: name :: f.tokens
    else .ofKind .varWord :: name :: .ofKind .equal ::
      (.ofKind .funWord :: f.tokens ++ endTokens)
  | .var name (some value) =>
    .ofKind .varWord :: name :: .ofKind .equal :: (value.tokens ++ endTokens)
  | .ifElse keyword condition whenTrue none =>
    keyword :: .ofKind .leftParen ::
      (condition.tokens ++ .ofKind .rightParen :: whenTrue.tokens)
  | .ifElse keyword condition whenTrue (some whenFalse) =>
    keyword :: .ofKind .leftParen :: (condition.tokens ++ .ofKind .rightParen ::
      (whenTrue.tokens ++ .ofKind .elseWord :: whenFalse.tokens))
  | .loop keyword condition body =>
    if keyword.kind = .forWord then
      keyword :: .ofKind .leftParen :: (endTokens ++ (condition.tokens ++ .ofKind .semicolon ::
        .ofKind .rightParen :: body.tokens))
    else
      keyword :: .ofKind .leftParen :: (condition.tokens ++ .ofKind .rightParen :: body.tokens)
  | .ret keyword none => keyword :: endTokens
  | .ret keyword (some value) => keyword :: (value.tokens ++ endTokens)
  | .importModule keyword name => keyword :: (name.tokens ++ endTokens)
  | .classDecl name superclass methods classMethods =>
    .ofKind .classWord :: name :: (superclassTokens superclass ++ .ofKind .leftBrace ::
      (methodsTokens methods ++ classMethodsTokens classMethods ++ [.ofKind .rightBrace]))

/-- The tokens of statements. -/
def stmtsTokens : List Stmt → List Token
  | [] => []
  | s :: rest => s.tokens ++ stmtsTokens rest

end

/-! ### The tokens spell the program -/

/-- A literal can be written down as a token. -/
theorem Literal.literal?_token (v : Literal) : v.token.literal? = some v := by
  match v with
  | .nil => rfl
  | .bool true => rfl
  | .bool false => rfl
  | .num _ => rfl
  | .str _ => rfl

/-- Names are written with commas between them. -/
theorem spellsNames_namesTokens (names : List Token) : SpellsNames names (namesTokens names) := by
  match names with
  | [] => exact .none
  | [t] => exact .last t
  | t :: t' :: rest =>
    exact .cons t _ rfl (List.cons_ne_nil _ _) (spellsNames_namesTokens (t' :: rest))

/-- A superclass is written behind its sign. -/
theorem spellsSuperclass_tokens (superclass : Option Token) :
    SpellsSuperclass superclass (superclassTokens superclass) := by
  cases superclass with
  | none => exact .none
  | some t => exact .some _ t rfl

/-- Every statement may be ended by a separator. -/
theorem ends_endTokens (written : List Token) (next : Option Kind) : Ends written endTokens next :=
  .inl ⟨_, rfl, rfl⟩

/-- No statement starts with `else`. -/
theorem nextKind_stmts_ne {body : List Stmt} {next : Option Kind} {r : List Token}
    (h : Spells (.stmts body next) r) (hs : StmtsStratified body) (hnext : next ≠ some .elseWord) :
    nextKind r next ≠ some .elseWord := by
  cases h with
  | noStmts => exact hnext
  | stmts h₁ _ =>
    obtain ⟨⟨t, rest, rfl, -, helse⟩, -⟩ := Grammar.starts_stmt hs.1 h₁
    simpa using helse

/-- If the expression is a function literal, the tokens of the function spell it. A declared
function has a name, so that the literal is not stratified by itself. -/
def Expr.FunctionSpelled : Expr → Prop
  | .function f => f.Stratified → Spells (.function f) f.tokens
  | _ => True

mutual

/-- **A stratified expression is spelled by its tokens.** -/
theorem Expr.spells_tokens : ∀ e : Expr, e.Stratified → Spells (.expr e) e.tokens
  | .literal value, _ => .literal value.literal?_token
  | .variable name, _ => .name name
  | .this keyword, _ => .this keyword
  | .super keyword method, _ => .super keyword method rfl
  | .array bracket elements, h => .array bracket (elements_spells_tokens elements h.2) rfl
  | .grouping inner, h => .grouping rfl (inner.spells_tokens h) rfl
  | .function declaration, h => .literalFunction rfl h.1 (declaration.spells_tokens h.2.2)
  | .unary operator operand, h => .unary operator (operand.spells_tokens h.2.1)
  | .reference operator target, h => .reference operator (target.spells_tokens h.2.1)
  | .binary left operator right, h => by
    obtain ⟨_, -, hleft, -, hright, -⟩ := h
    exact .binary operator (left.spells_tokens hleft) (right.spells_tokens hright)
  | .logical left operator right, h => by
    obtain ⟨_, -, hleft, -, hright, -⟩ := h
    exact .logical operator (left.spells_tokens hleft) (right.spells_tokens hright)
  | .ternary condition question whenTrue whenFalse, h =>
    .ternary question (condition.spells_tokens h.2.1) (whenTrue.spells_tokens h.2.2.2.1) rfl
      (whenFalse.spells_tokens h.2.2.2.2.2.1)
  | .assign name value, h => .assign name rfl (value.spells_tokens h.2.1)
  | .call callee paren arguments, h =>
    .call paren (callee.spells_tokens h.2.1) rfl (arguments_spells_tokens arguments h.2.2.2.2)
  | .get object name, h => .get name (object.spells_tokens h.1) rfl
  | .set object name value, h =>
    .set name (object.spells_tokens h.1) rfl rfl (value.spells_tokens h.2.2.2.1)
  | .subscript object bracket index, h =>
    .subscript bracket (object.spells_tokens h.1) rfl (index.spells_tokens h.2.2.2.1)
  | .setElement object bracket index value, h =>
    .setElement bracket (object.spells_tokens h.1) rfl (index.spells_tokens h.2.2.2.1) rfl
      (value.spells_tokens h.2.2.2.2.2.1)

/-- So is a function that stands in an expression. -/
theorem Expr.function_spells_tokens : ∀ e : Expr, e.FunctionSpelled
  | .function f => f.spells_tokens
  | .literal _ | .variable _ | .this _ | .super _ _ | .array _ _ | .grouping _ | .unary _ _
  | .reference _ _ | .binary _ _ _ | .logical _ _ _ | .ternary _ _ _ _ | .assign _ _ | .call _ _ _
  | .get _ _ | .set _ _ _ | .subscript _ _ _ | .setElement _ _ _ _ => trivial

/-- Elements are spelled one after the other. -/
theorem elements_spells_tokens :
    ∀ es : List Expr, ExprsStratified es → Spells (.elements es) (exprsTokens es)
  | [], _ => .noElements
  | [e], h => .lastElement (e.spells_tokens h.1)
  | e :: e' :: rest, h =>
    .element (e.spells_tokens h.1) rfl (elements_spells_tokens (e' :: rest) h.2.2)

/-- Arguments are spelled one after the other. -/
theorem arguments_spells_tokens :
    ∀ es : List Expr, ExprsStratified es → Spells (.arguments es) (exprsTokens es)
  | [], _ => .noArguments
  | [e], h => .lastArgument (e.spells_tokens h.1)
  | e :: e' :: rest, h =>
    .argument (e.spells_tokens h.1) rfl (List.cons_ne_nil _ _)
      (arguments_spells_tokens (e' :: rest) h.2.2)

/-- A function is spelled with its parameters, if it has any. -/
theorem Function.spells_tokens : ∀ f : Function, f.Stratified → Spells (.function f) f.tokens
  | .mk _ none body, h => .getter rfl (stmts_spells_tokens body h.2 _ nofun) rfl
  | .mk _ (some parameters) body, h =>
    .function rfl (spellsNames_namesTokens parameters) rfl rfl
      (stmts_spells_tokens body h.2 _ nofun) rfl

/-- Class methods are spelled with their keyword. -/
theorem classMethods_spells_tokens : ∀ fs : List Function, MethodsStratified fs →
    Spells (.methods [] fs) (classMethodsTokens fs)
  | [], _ => .noMethods
  | f :: rest, h => by
    obtain ⟨⟨name, hname, -⟩, hf, hrest⟩ := h
    rw [classMethodsTokens, hname, Option.toList_some, List.singleton_append]
    exact .classMethod rfl hname (f.spells_tokens hf) (classMethods_spells_tokens rest hrest)

/-- Methods are spelled before the class methods. -/
theorem methods_spells_tokens : ∀ fs : List Function, MethodsStratified fs →
    ∀ (classFs : List Function) (ts : List Token), Spells (.methods [] classFs) ts →
      Spells (.methods fs classFs) (methodsTokens fs ++ ts)
  | [], _, _, _, h => h
  | f :: rest, h, classFs, ts, h' => by
    obtain ⟨⟨name, hname, -⟩, hf, hrest⟩ := h
    rw [methodsTokens, hname, Option.toList_some, List.singleton_append, List.cons_append,
      List.append_assoc]
    exact .method hname (f.spells_tokens hf) (methods_spells_tokens rest hrest classFs ts h')

/-- An `if` at the end of the statement must not find an `else` behind it. -/
theorem Stmt.spells_tokens : ∀ s : Stmt, s.Stratified → ∀ next : Option Kind,
    (s.endsOpen = true → next ≠ some .elseWord) → Spells (.stmt s next) s.tokens
  | .expression value, h, _, _ =>
    .clause (.expression (value.spells_tokens h) (ends_endTokens _ _))
  | .block body, h, _, _ => .block rfl (stmts_spells_tokens body h _ nofun) rfl
  | .var name none, _, _, _ => .clause (.var name rfl (ends_endTokens _ _))
  | .var name (some value), h, _, _ => by
    have hvalue := value.spells_tokens
    have hfunction := value.function_spells_tokens
    cases value with
    | function f =>
      obtain ⟨-, hname | hname, hparameters, hf⟩ := h
      · rw [Stmt.tokens, hname]
        exact .clause (.varInitial name rfl rfl (.literalFunction rfl hname (hfunction hf))
          (ends_endTokens _ _))
      · rw [Stmt.tokens, hname]
        exact .functionDeclaration rfl hname hparameters (hfunction hf)
    | _ => exact .clause (.varInitial name rfl rfl (hvalue h.2) (ends_endTokens _ _))
  | .ifElse keyword condition whenTrue none, h, next, hopen => by
    obtain ⟨-, hcondition, htrue, -⟩ := h
    exact .ifThen keyword rfl (condition.spells_tokens hcondition) rfl
      (whenTrue.spells_tokens htrue next fun _ ↦ hopen rfl) (hopen rfl)
  | .ifElse keyword condition whenTrue (some whenFalse), h, next, hopen => by
    obtain ⟨-, hcondition, htrue, -, hclosed, hfalse, -⟩ := h
    refine .ifElse keyword rfl (condition.spells_tokens hcondition) rfl
      (whenTrue.spells_tokens htrue _ fun h ↦ ?_) rfl (whenFalse.spells_tokens hfalse next hopen)
    rw [hclosed] at h
    cases h
  | .loop keyword condition body, h, next, hopen => by
    obtain ⟨hkeyword, hcondition, hbody, hdecl⟩ := h
    have hcondition' := condition.spells_tokens hcondition
    have hbody' := body.spells_tokens hbody next hopen
    rw [Stmt.tokens]
    split
    · next hfor =>
      exact .forLoop hfor rfl (.noInitial rfl) (.condition hcondition') rfl .noIncrement rfl hbody'
        hdecl rfl
    · next hfor => exact .whileLoop (hkeyword.resolve_right hfor) rfl hcondition' rfl hbody'
  | .ret keyword none, _, _, _ => .ret keyword (ends_endTokens _ _) nofun
  | .ret keyword (some value), h, _, _ =>
    .retValue keyword (value.spells_tokens h.2) (ends_endTokens _ _)
  | .importModule keyword name, h, _, _ =>
    .importModule keyword (name.spells_tokens h.2) (ends_endTokens _ _)
  | .classDecl name superclass methods classMethods, h, _, _ =>
    .classDecl name rfl (spellsSuperclass_tokens superclass) rfl
      (methods_spells_tokens methods h.2.2.1 classMethods _
        (classMethods_spells_tokens classMethods h.2.2.2)) rfl

/-- Statements are spelled one after the other. -/
theorem stmts_spells_tokens : ∀ body : List Stmt, StmtsStratified body → ∀ next : Option Kind,
    next ≠ some .elseWord → Spells (.stmts body next) (stmtsTokens body)
  | [], _, _, _ => .noStmts
  | s :: rest, h, next, hnext => by
    have hrest := stmts_spells_tokens rest h.2 next hnext
    exact .stmts (s.spells_tokens h.1 _ fun _ ↦ nextKind_stmts_ne hrest h.2 hnext) hrest

end

/-- **Parsing gives exactly the stratified programs**, each from its spellings and in particular
from its own tokens. -/
theorem Program.parse_eq_ok_iff (program : Program) (eof : Token) :
    (∀ tokens, Program.parse tokens eof = .ok program ↔
      StmtsStratified program ∧ Spells (.stmts program none) tokens) ∧
    (StmtsStratified program ↔ Program.parse (stmtsTokens program) eof = .ok program) := by
  refine ⟨fun tokens ↦ ⟨says_of_parse, fun h ↦ parse_of_says eof h.1 h.2⟩, fun h ↦ ?_, fun h ↦ ?_⟩
  · exact parse_of_says eof h (stmts_spells_tokens program h none nofun)
  · exact (says_of_parse h).1

end AliasScript
