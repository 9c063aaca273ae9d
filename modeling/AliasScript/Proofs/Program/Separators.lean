import AliasScript.Proofs.Program.Recognized

/-!
# Separators that may be missing

A separator that stands before a closing brace, before `else` or at the end of a program says
nothing that is not said anyway: without it, the same program is parsed. There is one exception.
What follows a `return` without a value is looked at twice, first for a value and then for an end,
and the first look does not know `else`: there the separator is needed, and without it nothing is
parsed.

Both are shown on spellings. A spelling stays one without such a separator (`Omits`), and in no
spelling does an `else` stand right behind a `return` (`Apart`).
-/

namespace AliasScript

/-! ### Leaving out a separator -/

/-- Before these tokens a statement is at its end: a closing brace, `else`, or nothing at all. -/
def Closing (next : Option Kind) : Prop :=
  next = none ∨ next = some .rightBrace ∨ next = some .elseWord

instance (next : Option Kind) : Decidable (Closing next) :=
  inferInstanceAs (Decidable (_ ∨ _ ∨ _))

/-- The second list is the first without a separator before a closing token, where the token before
the list and the one behind it are of the kinds given. The separator between a `return` and an
`else` is not left out. -/
inductive Omits (next : Option Kind) : Option Kind → List Token → List Token → Prop where
  | here {previous : Option Kind} {separator : Token} {rest : List Token} :
      separator.kind = .semicolon → Closing (nextKind rest next) →
      (previous = some .returnWord → nextKind rest next ≠ some .elseWord) →
      Omits next previous (separator :: rest) rest
  | later {previous : Option Kind} {t : Token} {tokens shorter : List Token} :
      Omits next (some t.kind) tokens shorter → Omits next previous (t :: tokens) (t :: shorter)

namespace Omits

variable {next previous : Option Kind} {t : Token} {tokens more shorter : List Token}

/-- A separator is left out where the end of a statement needs none. -/
theorem of_append {separator : Token} {before after : List Token}
    (hkind : separator.kind = .semicolon) (hclosing : Closing (nextKind after next))
    (hslip : (before.getLast?.map Token.kind).or previous = some .returnWord →
      nextKind after next ≠ some .elseWord) :
    Omits next previous (before ++ separator :: after) (before ++ after) := by
  induction before generalizing previous with
  | nil => exact .here hkind hclosing hslip
  | cons t before ih =>
    have hlast : ((t :: before).getLast?.map Token.kind).or previous =
        (before.getLast?.map Token.kind).or (some t.kind) := by
      rw [List.getLast?_cons]
      cases before.getLast? <;> rfl
    exact .later (ih (hlast ▸ hslip))

/-- What is left out does not stand before the first token that stays. -/
theorem tail (h : Omits next previous (t :: tokens) shorter) (ht : t.kind ≠ .semicolon) :
    ∃ shorter', shorter = t :: shorter' ∧ Omits next (some t.kind) tokens shorter' := by
  cases h with
  | here hkind => exact absurd hkind ht
  | later h => exact ⟨_, rfl, h⟩

/-- In two lists one behind the other, the separator stands in the one or in the other. -/
theorem append (h : Omits next previous (tokens ++ more) shorter) :
    (∃ tokens', shorter = tokens' ++ more ∧ Omits (nextKind more next) previous tokens tokens') ∨
      ∃ more' previous', shorter = tokens ++ more' ∧ Omits next previous' more more' := by
  induction tokens generalizing previous shorter with
  | nil => exact .inr ⟨shorter, previous, rfl, h⟩
  | cons t tokens ih =>
    rw [List.cons_append] at h
    cases h with
    | here hkind hclosing hslip =>
      rw [nextKind_append] at hclosing hslip
      exact .inl ⟨tokens, rfl, .here hkind hclosing hslip⟩
    | later h =>
      rcases ih h with ⟨tokens', rfl, htokens⟩ | ⟨more', previous', rfl, hmore⟩
      · exact .inl ⟨t :: tokens', rfl, .later htokens⟩
      · exact .inr ⟨more', previous', rfl, hmore⟩

/-- The token before the list is the same for what does not start with a separator. -/
theorem nextKind_eq (h : Omits next previous tokens shorter)
    (hne : nextKind tokens none ≠ some .semicolon) (next' : Option Kind) :
    nextKind shorter next' = nextKind tokens next' := by
  cases h with
  | here hkind => simp [hkind] at hne
  | later h => rfl

/-- The last token stays, unless it is a separator. -/
theorem getLast?_eq (h : Omits next previous tokens shorter) (hlast : tokens.getLast? = some t)
    (ht : t.kind ≠ .semicolon) : shorter.getLast? = some t := by
  induction h with
  | @here _ separator rest hkind =>
    cases rest with
    | nil =>
      cases hlast
      exact absurd hkind ht
    | cons t' rest => simpa using hlast
  | @later _ t' tokens shorter h ih =>
    cases tokens with
    | nil => cases h
    | cons t'' tokens =>
      rw [List.getLast?_cons_cons] at hlast
      rw [List.getLast?_cons, ih hlast]
      rfl

end Omits

/-! ### No `else` behind a `return` -/

/-- No `else` stands right behind a `return`, where the token behind the list is of the kind given.
-/
def Apart (next : Option Kind) : List Token → Prop
  | [] => True
  | t :: tokens =>
    (t.kind = .returnWord → nextKind tokens next ≠ some .elseWord) ∧ Apart next tokens

/-- No return stands in no tokens. -/
@[simp] theorem apart_nil (next : Option Kind) : Apart next [] := trivial

@[simp] theorem apart_cons {next : Option Kind} {t : Token} {tokens : List Token} :
    Apart next (t :: tokens) ↔
      (t.kind = .returnWord → nextKind tokens next ≠ some .elseWord) ∧ Apart next tokens :=
  Iff.rfl

/-- Where two lists meet, the second one tells what is behind the first. -/
@[simp] theorem apart_append {next : Option Kind} {tokens more : List Token} :
    Apart next (tokens ++ more) ↔ Apart (nextKind more next) tokens ∧ Apart next more := by
  induction tokens with
  | nil => simp
  | cons t tokens ih => simp [ih, and_assoc]

/-! ### Spellings without a separator -/

/-- The tokens of the trees in the phrase are of the kinds that the grammar gives them. -/
def Phrase.Stratified : Phrase → Prop
  | .expr e | .condition e => e.Stratified
  | .arguments es | .elements es => ExprsStratified es
  | .function f => f.Stratified
  | .methods fs classFs => MethodsStratified fs ∧ MethodsStratified classFs
  | .clause s _ | .stmt s _ => s.Stratified
  | .stmts body _ => StmtsStratified body
  | .initial first _ => ∀ s ∈ first, Stmt.Stratified s
  | .increment last => ∀ e ∈ last, Expr.Stratified e

/-- The phrase may stand before a token of the kind. The first clause of a `for` stands before the
second, so its separator does not close anything. -/
def Phrase.Before : Phrase → Option Kind → Prop
  | .clause _ next, next' | .stmt _ next, next' | .stmts _ next, next' => next = next'
  | .initial _ next, next' => next = next' ∧ ¬ Closing next
  | _, _ => True

/-- No `else` stands right behind a `return`, and the tokens are as they should be without a
separator that may be missing. -/
structure Relaxes (P : List Token → Prop) (next : Option Kind) (tokens : List Token) : Prop where
  apart : Apart next tokens
  omits : ∀ previous shorter, Omits next previous tokens shorter → P shorter

/-- The kinds that are neither a separator nor a `return`. -/
def Kind.Inert (kind : Kind) : Prop :=
  kind ≠ .semicolon ∧ kind ≠ .returnWord

instance (kind : Kind) : Decidable kind.Inert :=
  inferInstanceAs (Decidable (_ ∧ _))

namespace Relaxes

variable {P Q : List Token → Prop} {next : Option Kind} {t : Token} {kind : Kind}
  {tokens more : List Token}

/-- The tokens that are left may be looked at once more before they are read. -/
theorem imp_of_omits (h : Relaxes P next tokens)
    (himp : ∀ {previous shorter}, Omits next previous tokens shorter → P shorter → Q shorter) :
    Relaxes Q next tokens :=
  ⟨h.apart, fun previous shorter homits ↦ himp homits (h.omits previous shorter homits)⟩

/-- What is said of all tokens that may be left can be weakened. -/
theorem imp (h : Relaxes P next tokens) (himp : ∀ {tokens}, P tokens → Q tokens) :
    Relaxes Q next tokens :=
  h.imp_of_omits fun _ ↦ himp

/-- There is no separator in no tokens. -/
theorem nil : Relaxes P next [] :=
  ⟨trivial, nofun⟩

/-- **A token that is no separator stays**, so the tokens behind it are to be looked at. -/
theorem cons (ht : t.kind ≠ .semicolon)
    (hapart : t.kind = .returnWord → nextKind tokens next ≠ some .elseWord)
    (h : Relaxes (fun tokens ↦ P (t :: tokens)) next tokens) : Relaxes P next (t :: tokens) := by
  refine ⟨⟨hapart, h.apart⟩, fun previous shorter homits ↦ ?_⟩
  obtain ⟨shorter', rfl, homits'⟩ := homits.tail ht
  exact h.omits _ _ homits'

/-- A token that is neither a separator nor a `return` says nothing about what is left out. -/
theorem inert (ht : t.kind.Inert) (h : Relaxes (fun tokens ↦ P (t :: tokens)) next tokens) :
    Relaxes P next (t :: tokens) :=
  .cons ht.1 (fun hkind ↦ absurd hkind ht.2) h

/-- A separator that closes nothing. -/
theorem separator (ht : t.kind = .semicolon) (hclosing : ¬ Closing (nextKind tokens next))
    (h : Relaxes (fun tokens ↦ P (t :: tokens)) next tokens) : Relaxes P next (t :: tokens) := by
  refine ⟨⟨fun hkind ↦ ?_, h.apart⟩, fun previous shorter homits ↦ ?_⟩
  · rw [ht] at hkind
    cases hkind
  · cases homits with
    | here _ hclosing' => exact absurd hclosing' hclosing
    | later homits => exact h.omits _ _ homits

/-- A token of a known kind before others. -/
theorem token (ht : t.kind = kind) (hkind : kind.Inert)
    (h : Relaxes (fun tokens ↦ P (t :: tokens)) next tokens) : Relaxes P next (t :: tokens) :=
  .inert (ht ▸ hkind) h

/-- Among tokens of such kinds no separator can be left out. -/
theorem of_forall_inert (h : ∀ t ∈ tokens, t.kind.Inert) : Relaxes P next tokens := by
  induction tokens generalizing P with
  | nil => exact .nil
  | cons t tokens ih =>
    obtain ⟨ht, htokens⟩ := List.forall_mem_cons.1 h
    exact .inert ht (ih htokens)

/-- **Two lists one behind the other**: each may lose a separator while the other stays as it is. -/
theorem append (h : Relaxes (fun tokens ↦ P (tokens ++ more)) (nextKind more next) tokens)
    (h' : Relaxes (fun more ↦ P (tokens ++ more)) next more) :
    Relaxes P next (tokens ++ more) := by
  refine ⟨apart_append.2 ⟨h.apart, h'.apart⟩, fun previous shorter homits ↦ ?_⟩
  rcases homits.append with ⟨tokens', rfl, htokens⟩ | ⟨more', previous', rfl, hmore⟩
  · exact h.omits _ _ htokens
  · exact h'.omits _ _ hmore

/-- Two parts with a token between them. -/
theorem joined (ht : t.kind.Inert)
    (h : Relaxes (fun tokens ↦ P (tokens ++ t :: more)) (some t.kind) tokens)
    (h' : Relaxes (fun more ↦ P (tokens ++ t :: more)) next more) :
    Relaxes P next (tokens ++ t :: more) :=
  .append h (.inert ht h')

/-- A part with a token before it and one behind it. -/
theorem enclosed {close : Token} (ht : t.kind.Inert) (hclose : close.kind.Inert)
    (h : Relaxes (fun tokens ↦ P (t :: (tokens ++ [close]))) (some close.kind) tokens) :
    Relaxes P next (t :: (tokens ++ [close])) :=
  .inert ht (.append h (.inert hclose .nil))

end Relaxes

/-! Tokens that stand in trees. -/

/-- Tokens of literals are no separators. -/
theorem inert_of_literal? {t : Token} {v : Literal} (h : t.literal? = some v) : t.kind.Inert := by
  unfold Token.literal? at h
  unfold Kind.Inert
  split at h <;> simp_all

/-- Operators with two operands are none either. -/
theorem inert_of_binaryRank? {kind : Kind} {rank : Rank} (h : kind.binaryRank? = some rank) :
    kind.Inert := by
  constructor <;> rintro rfl <;> cases h

theorem inert_of_logicalRank? {kind : Kind} {rank : Rank} (h : kind.logicalRank? = some rank) :
    kind.Inert := by
  constructor <;> rintro rfl <;> cases h

/-- The names and commas of a list of parameters. -/
theorem SpellsNames.inert {names tokens : List Token} (h : SpellsNames names tokens)
    (hnames : ∀ t ∈ names, t.kind = .identifier) : ∀ t ∈ tokens, t.kind.Inert := by
  induction h with
  | none => exact nofun
  | last t => simpa using (hnames t List.mem_cons_self ▸ by decide : t.kind.Inert)
  | cons t comma hcomma _ _ ih =>
    obtain ⟨ht, hrest⟩ := List.forall_mem_cons.1 hnames
    exact List.forall_mem_cons.2 ⟨ht ▸ by decide,
      List.forall_mem_cons.2 ⟨hcomma ▸ by decide, ih hrest⟩⟩

/-- The sign and the name of a superclass. -/
theorem SpellsSuperclass.inert {superclass : Option Token} {tokens : List Token}
    (h : SpellsSuperclass superclass tokens) (hkind : ∀ t ∈ superclass, t.kind = .identifier) :
    ∀ t ∈ tokens, t.kind.Inert := by
  cases h with
  | none => exact nofun
  | some less t hless =>
    exact List.forall_mem_cons.2 ⟨hless ▸ by decide,
      List.forall_mem_singleton.2 (hkind t rfl ▸ by decide)⟩

/-! Where statements end. -/

/-- Where the separator may be left out, a statement may end without one. -/
theorem Closing.ends {next : Option Kind} (h : Closing next) (written : List Token) :
    Ends written [] next :=
  .inr ⟨rfl, h.imp_right fun h ↦ h.imp_right .inl⟩

/-- An end that is a separator may be missing before a closing token. -/
theorem Ends.relaxes {written ends : List Token} {next : Option Kind} (h : Ends written ends next) :
    Relaxes (fun ends ↦ Ends written ends next) next ends := by
  rcases h with ⟨t, rfl, ht⟩ | ⟨rfl, -⟩
  · refine ⟨by simp [ht], fun previous shorter homits ↦ ?_⟩
    cases homits with
    | here _ hclosing => exact hclosing.ends written
    | later homits => cases homits
  · exact .nil

/-- What is left out of a statement does not change how it may end. -/
theorem Ends.of_omits {written shorter ends : List Token} {next next' previous : Option Kind}
    (h : Ends written ends next) (homits : Omits next' previous written shorter) :
    Ends shorter ends next := by
  refine h.imp_right fun ⟨hends, hnext⟩ ↦ ⟨hends, ?_⟩
  refine hnext.imp_right fun h ↦ h.imp_right fun h ↦ h.imp_right ?_
  rintro ⟨⟨t, hlast, ht⟩, hrest⟩
  exact ⟨⟨t, homits.getLast?_eq hlast (by simp [ht]), ht⟩, hrest⟩

/-- No statement starts with a separator. -/
theorem Spells.stmt_ne_separator {s : Stmt} {next : Option Kind} {tokens : List Token}
    (h : Spells (.stmt s next) tokens) (hs : s.Stratified) :
    ∃ t rest, tokens = t :: rest ∧ t.kind ≠ .semicolon := by
  cases h with
  | clause h =>
    cases h with
    | expression hvalue =>
      obtain ⟨t, rest, rfl, ht⟩ := hvalue.begins hs
      refine ⟨t, _, rfl, fun hkind ↦ ?_⟩
      rw [hkind] at ht
      exact ht.elim nofun nofun
    | var name hkeyword | varInitial name hkeyword => exact ⟨_, _, rfl, by simp [hkeyword]⟩
  | block hkeyword | whileLoop hkeyword | forLoop hkeyword | functionDeclaration hkeyword =>
    exact ⟨_, _, rfl, by simp [hkeyword]⟩
  | classDecl name hkeyword => exact ⟨_, _, rfl, by simp [hkeyword]⟩
  | ret keyword =>
    have hkeyword : keyword.kind = .returnWord := by simpa [Stmt.Stratified] using hs
    exact ⟨_, _, rfl, by simp [hkeyword]⟩
  | ifThen keyword | ifElse keyword | retValue keyword | importModule keyword =>
    exact ⟨_, _, rfl, by simp [hs.1]⟩

/-- No statement starts with a separator, and the list may be empty. -/
theorem Spells.stmts_ne_separator {body : List Stmt} {next : Option Kind} {tokens : List Token}
    (h : Spells (.stmts body next) tokens) (hs : StmtsStratified body) :
    nextKind tokens none ≠ some .semicolon := by
  cases h with
  | noStmts => exact nofun
  | stmts h _ =>
    obtain ⟨t, rest, rfl, ht⟩ := h.stmt_ne_separator hs.1
    simpa using ht

/-- Behind a separator that is left out no expression starts. -/
theorem not_closing_of_begins {tokens : List Token} (h : Begins tokens) (next : Option Kind) :
    ¬ Closing (nextKind tokens next) := by
  rintro (hnext | hnext | hnext)
  · exact h.nextKind_ne_none _ hnext
  · exact h.nextKind_ne rfl rfl _ hnext
  · exact h.nextKind_ne rfl rfl _ hnext

/-- The clauses of a `for` do not start with a separator or a closing token. -/
theorem Spells.condition_begins {e : Expr} {tokens : List Token}
    (h : Spells (.condition e) tokens) (hs : e.Stratified) : tokens = [] ∨ Begins tokens := by
  cases h with
  | noCondition => exact .inl rfl
  | condition h => exact .inr (h.begins hs)

/-- The last clause of a `for` is nothing or starts an expression. -/
theorem Spells.increment_begins {increment : Option Expr} {tokens : List Token}
    (h : Spells (.increment increment) tokens) (hs : ∀ e ∈ increment, e.Stratified) :
    tokens = [] ∨ Begins tokens := by
  cases h with
  | noIncrement => exact .inl rfl
  | @increment e _ h => exact .inr (h.begins (hs e rfl))

/-- The separator behind a `return` may be missing, but not before `else`. -/
theorem relaxes_ret {keyword : Token} {ends : List Token} {next : Option Kind}
    (hkeyword : keyword.kind = .returnWord) (hends : Ends [keyword] ends next)
    (hslip : ends = [] → next ≠ some .elseWord) :
    Relaxes (Spells (.stmt (.ret keyword none) next)) next (keyword :: ends) := by
  rcases hends with ⟨t, rfl, ht⟩ | ⟨rfl, -⟩
  · refine ⟨by simp [hkeyword, ht], fun previous shorter homits ↦ ?_⟩
    obtain ⟨_, rfl, hends⟩ := homits.tail (by simp [hkeyword])
    cases hends with
    | here _ hclosing hapart =>
      exact .ret keyword (hclosing.ends _) fun _ ↦ hapart (by rw [hkeyword])
    | later hends => cases hends
  · exact .cons (by simp [hkeyword]) (fun _ ↦ hslip rfl) .nil

/-! ### Every phrase

Each form of phrase has a lemma of its own, or is short. What is left out of a phrase is left out of
one of its parts, so the phrase is spelled anew with that part. -/

/-- The tokens spell the phrase also without a separator that may be missing. -/
def Phrase.Relaxed (phrase : Phrase) (tokens : List Token) : Prop :=
  phrase.Stratified → ∀ {next : Option Kind}, phrase.Before next →
    Relaxes (Spells phrase) next tokens

section Expressions

variable {e e₁ e₂ e₃ : Expr} {ts ts₁ ts₂ ts₃ : List Token} {name operator opening dot equal : Token}

/-- An operator stands between its operands. -/
theorem relaxes_binary (h₁ : Spells (.expr e₁) ts₁) (h₂ : Spells (.expr e₂) ts₂)
    (ih₁ : (Phrase.expr e₁).Relaxed ts₁) (ih₂ : (Phrase.expr e₂).Relaxed ts₂) :
    (Phrase.expr (.binary e₁ operator e₂)).Relaxed (ts₁ ++ operator :: ts₂) := by
  rintro ⟨rank, hoperator, hs₁, -, hs₂, -⟩ next -
  exact .joined (inert_of_binaryRank? hoperator)
    ((ih₁ hs₁ trivial).imp fun h ↦ .binary operator h h₂)
    ((ih₂ hs₂ trivial).imp fun h ↦ .binary operator h₁ h)

/-- Both operands of a logical operator. -/
theorem relaxes_logical (h₁ : Spells (.expr e₁) ts₁) (h₂ : Spells (.expr e₂) ts₂)
    (ih₁ : (Phrase.expr e₁).Relaxed ts₁) (ih₂ : (Phrase.expr e₂).Relaxed ts₂) :
    (Phrase.expr (.logical e₁ operator e₂)).Relaxed (ts₁ ++ operator :: ts₂) := by
  rintro ⟨rank, hoperator, hs₁, -, hs₂, -⟩ next -
  exact .joined (inert_of_logicalRank? hoperator)
    ((ih₁ hs₁ trivial).imp fun h ↦ .logical operator h h₂)
    ((ih₂ hs₂ trivial).imp fun h ↦ .logical operator h₁ h)

/-- The three parts of a conditional expression. -/
theorem relaxes_ternary {question colon : Token} (h₁ : Spells (.expr e₁) ts₁)
    (h₂ : Spells (.expr e₂) ts₂) (hcolon : colon.kind = .colon) (h₃ : Spells (.expr e₃) ts₃)
    (ih₁ : (Phrase.expr e₁).Relaxed ts₁) (ih₂ : (Phrase.expr e₂).Relaxed ts₂)
    (ih₃ : (Phrase.expr e₃).Relaxed ts₃) :
    (Phrase.expr (.ternary e₁ question e₂ e₃)).Relaxed
      (ts₁ ++ question :: (ts₂ ++ colon :: ts₃)) := by
  rintro ⟨hquestion, hs₁, -, hs₂, -, hs₃, -⟩ next -
  refine .joined (hquestion ▸ by decide) ?_ (.joined (hcolon ▸ by decide) ?_ ?_)
  · exact (ih₁ hs₁ trivial).imp fun h ↦ .ternary question h h₂ hcolon h₃
  · exact (ih₂ hs₂ trivial).imp fun h ↦ .ternary question h₁ h hcolon h₃
  · exact (ih₃ hs₃ trivial).imp fun h ↦ .ternary question h₁ h₂ hcolon h

/-- A callee and its arguments. -/
theorem relaxes_call {paren : Token} {arguments : List Expr} (h₁ : Spells (.expr e) ts₁)
    (hopening : opening.kind = .leftParen) (h₂ : Spells (.arguments arguments) ts₂)
    (ih₁ : (Phrase.expr e).Relaxed ts₁) (ih₂ : (Phrase.arguments arguments).Relaxed ts₂) :
    (Phrase.expr (.call e paren arguments)).Relaxed (ts₁ ++ opening :: (ts₂ ++ [paren])) := by
  rintro ⟨hparen, hs₁, -, -, hs₂⟩ next -
  refine .append ?_ (.enclosed (hopening ▸ by decide) (hparen ▸ by decide) ?_)
  · exact (ih₁ hs₁ trivial).imp fun h ↦ .call paren h hopening h₂
  · exact (ih₂ hs₂ trivial).imp fun h ↦ .call paren h₁ hopening h

/-- The object of a property. -/
theorem relaxes_get (hdot : dot.kind = .dot) (ih : (Phrase.expr e).Relaxed ts) :
    (Phrase.expr (.get e name)).Relaxed (ts ++ [dot, name]) := by
  rintro ⟨hs, -, hname⟩ next -
  exact .joined (hdot ▸ by decide) ((ih hs trivial).imp fun h ↦ .get name h hdot)
    (.token hname (by decide) .nil)

/-- An object, and the value that is assigned to its property. -/
theorem relaxes_set (h₁ : Spells (.expr e₁) ts₁) (hdot : dot.kind = .dot)
    (hequal : equal.kind = .equal) (h₂ : Spells (.expr e₂) ts₂)
    (ih₁ : (Phrase.expr e₁).Relaxed ts₁) (ih₂ : (Phrase.expr e₂).Relaxed ts₂) :
    (Phrase.expr (.set e₁ name e₂)).Relaxed (ts₁ ++ dot :: name :: equal :: ts₂) := by
  rintro ⟨hs₁, -, hname, hs₂, -⟩ next -
  refine .joined (hdot ▸ by decide) ?_ (.token hname (by decide) (.token hequal (by decide) ?_))
  · exact (ih₁ hs₁ trivial).imp fun h ↦ .set name h hdot hequal h₂
  · exact (ih₂ hs₂ trivial).imp fun h ↦ .set name h₁ hdot hequal h

/-- An array and an index. -/
theorem relaxes_subscript {bracket : Token} (h₁ : Spells (.expr e₁) ts₁)
    (hopening : opening.kind = .leftBracket) (h₂ : Spells (.expr e₂) ts₂)
    (ih₁ : (Phrase.expr e₁).Relaxed ts₁) (ih₂ : (Phrase.expr e₂).Relaxed ts₂) :
    (Phrase.expr (.subscript e₁ bracket e₂)).Relaxed (ts₁ ++ opening :: (ts₂ ++ [bracket])) := by
  rintro ⟨hs₁, -, hbracket, hs₂, -⟩ next -
  refine .append ?_ (.enclosed (hopening ▸ by decide) (hbracket ▸ by decide) ?_)
  · exact (ih₁ hs₁ trivial).imp fun h ↦ .subscript bracket h hopening h₂
  · exact (ih₂ hs₂ trivial).imp fun h ↦ .subscript bracket h₁ hopening h

/-- An array, an index and the value that is assigned there. -/
theorem relaxes_setElement {bracket : Token} (h₁ : Spells (.expr e₁) ts₁)
    (hopening : opening.kind = .leftBracket) (h₂ : Spells (.expr e₂) ts₂)
    (hequal : equal.kind = .equal) (h₃ : Spells (.expr e₃) ts₃)
    (ih₁ : (Phrase.expr e₁).Relaxed ts₁) (ih₂ : (Phrase.expr e₂).Relaxed ts₂)
    (ih₃ : (Phrase.expr e₃).Relaxed ts₃) :
    (Phrase.expr (.setElement e₁ bracket e₂ e₃)).Relaxed
      (ts₁ ++ opening :: (ts₂ ++ bracket :: equal :: ts₃)) := by
  rintro ⟨hs₁, -, hbracket, hs₂, -, hs₃, -⟩ next -
  refine .joined (hopening ▸ by decide) ?_
    (.joined (hbracket ▸ by decide) ?_ (.token hequal (by decide) ?_))
  · exact (ih₁ hs₁ trivial).imp fun h ↦ .setElement bracket h hopening h₂ hequal h₃
  · exact (ih₂ hs₂ trivial).imp fun h ↦ .setElement bracket h₁ hopening h hequal h₃
  · exact (ih₃ hs₃ trivial).imp fun h ↦ .setElement bracket h₁ hopening h₂ hequal h

end Expressions

section Functions

variable {f : Function} {name : Token} {body : List Stmt} {methods classMethods : List Function}
  {ts ts' : List Token} {opening close : Token}

/-- The body of a function stands before its closing brace. -/
theorem relaxes_getter {name : Option Token} (hopening : opening.kind = .leftBrace)
    (hclose : close.kind = .rightBrace)
    (ih : (Phrase.stmts body (some .rightBrace)).Relaxed ts) :
    (Phrase.function (.mk name none body)).Relaxed (opening :: (ts ++ [close])) := by
  intro hs next _
  refine .enclosed (hopening ▸ by decide) (hclose ▸ by decide) ?_
  exact (ih hs.2 (by simp [Phrase.Before, hclose])).imp fun h ↦ .getter hopening h hclose

/-- In a function only its body has separators. -/
theorem relaxes_function {name : Option Token} {parameters : List Token} {paren paren' : Token}
    (hparen : paren.kind = .leftParen) (hnames : SpellsNames parameters ts)
    (hparen' : paren'.kind = .rightParen) (hopening : opening.kind = .leftBrace)
    (hclose : close.kind = .rightBrace)
    (ih : (Phrase.stmts body (some .rightBrace)).Relaxed ts') :
    (Phrase.function (.mk name (some parameters) body)).Relaxed
      (paren :: (ts ++ paren' :: opening :: (ts' ++ [close]))) := by
  intro hs next _
  refine .token hparen (by decide) (.append ?_ (.token hparen' (by decide) ?_))
  · exact .of_forall_inert (hnames.inert (hs.1 _ rfl).2)
  · refine .enclosed (hopening ▸ by decide) (hclose ▸ by decide) ?_
    exact (ih hs.2 (by simp [Phrase.Before, hclose])).imp fun h ↦
      .function hparen hnames hparen' hopening h hclose

/-- A method, and the methods behind it. -/
theorem relaxes_method (hname : f.name = some name) (hf : Spells (.function f) ts)
    (hrest : Spells (.methods methods classMethods) ts') (ih : (Phrase.function f).Relaxed ts)
    (ih' : (Phrase.methods methods classMethods).Relaxed ts') :
    (Phrase.methods (f :: methods) classMethods).Relaxed (name :: (ts ++ ts')) := by
  rintro ⟨⟨⟨name', hname', hkind⟩, hs, hmethods⟩, hclassMethods⟩ next -
  obtain rfl : name' = _ := Option.some.inj (hname'.symm.trans hname)
  refine .token hkind (by decide) (.append ?_ ?_)
  · exact (ih hs trivial).imp fun h ↦ .method hname h hrest
  · exact (ih' ⟨hmethods, hclassMethods⟩ trivial).imp fun h ↦ .method hname hf h

/-- A class method, and the methods behind it. -/
theorem relaxes_classMethod {keyword : Token} (hkeyword : keyword.kind = .classWord)
    (hname : f.name = some name) (hf : Spells (.function f) ts)
    (hrest : Spells (.methods methods classMethods) ts') (ih : (Phrase.function f).Relaxed ts)
    (ih' : (Phrase.methods methods classMethods).Relaxed ts') :
    (Phrase.methods methods (f :: classMethods)).Relaxed (keyword :: name :: (ts ++ ts')) := by
  rintro ⟨hmethods, ⟨name', hname', hkind⟩, hs, hclassMethods⟩ next -
  obtain rfl : name' = _ := Option.some.inj (hname'.symm.trans hname)
  refine .token hkeyword (by decide) (.token hkind (by decide) (.append ?_ ?_))
  · exact (ih hs trivial).imp fun h ↦ .classMethod hkeyword hname h hrest
  · exact (ih' ⟨hmethods, hclassMethods⟩ trivial).imp fun h ↦ .classMethod hkeyword hname hf h

/-- In a class only the bodies of its methods have separators. -/
theorem relaxes_classDecl {keyword : Token} {superclass : Option Token} {next : Option Kind}
    (hkeyword : keyword.kind = .classWord) (hsuperclass : SpellsSuperclass superclass ts)
    (hopening : opening.kind = .leftBrace) (hclose : close.kind = .rightBrace)
    (ih : (Phrase.methods methods classMethods).Relaxed ts') :
    (Phrase.stmt (.classDecl name superclass methods classMethods) next).Relaxed
      (keyword :: name :: (ts ++ opening :: (ts' ++ [close]))) := by
  rintro ⟨hname, hkinds, hs⟩ next' -
  refine .token hkeyword (by decide) (.token hname (by decide) (.append ?_ ?_))
  · exact .of_forall_inert (hsuperclass.inert hkinds)
  · refine .enclosed (hopening ▸ by decide) (hclose ▸ by decide) ?_
    exact (ih hs trivial).imp fun h ↦ .classDecl name hkeyword hsuperclass hopening h hclose

end Functions

section Statements

variable {e : Expr} {s s' : Stmt} {ts ts' ts'' ends : List Token} {next : Option Kind}
  {keyword name opening close : Token}

/-- A statement that is left shorter may still end as it did. -/
theorem relaxes_expression (hvalue : Spells (.expr e) ts) (hends : Ends ts ends next)
    (ih : (Phrase.expr e).Relaxed ts) :
    (Phrase.clause (.expression e) next).Relaxed (ts ++ ends) := by
  rintro hs _ rfl
  refine .append ((ih hs trivial).imp_of_omits fun homits h ↦ ?_) ?_
  · exact .expression h (hends.of_omits homits)
  · exact hends.relaxes.imp fun h ↦ .expression hvalue h

/-- The initial value of a variable, and then the separator of its declaration. -/
theorem relaxes_varInitial {equal : Token} (hkeyword : keyword.kind = .varWord)
    (hequal : equal.kind = .equal) (hvalue : Spells (.expr e) ts) (hends : Ends ts ends next)
    (ih : (Phrase.expr e).Relaxed ts) :
    (Phrase.clause (.var name (some e)) next).Relaxed
      (keyword :: name :: equal :: (ts ++ ends)) := by
  rintro hs _ rfl
  obtain ⟨hname, hs⟩ := Grammar.stratified_of_var hs hvalue
  refine .token hkeyword (by decide) (.token hname (by decide) (.token hequal (by decide) ?_))
  refine .append ((ih hs trivial).imp_of_omits fun homits h ↦ ?_) ?_
  · exact .varInitial name hkeyword hequal h (hends.of_omits homits)
  · exact hends.relaxes.imp fun h ↦ .varInitial name hkeyword hequal hvalue h

/-- The value of a `return` does not start with `else`. -/
theorem relaxes_retValue (hvalue : Spells (.expr e) ts) (hends : Ends ts ends next)
    (ih : (Phrase.expr e).Relaxed ts) :
    (Phrase.stmt (.ret keyword (some e)) next).Relaxed (keyword :: (ts ++ ends)) := by
  rintro ⟨hkeyword, hs⟩ _ rfl
  refine .cons (by simp [hkeyword]) (fun _ ↦ ?_) (.append ?_ ?_)
  · simpa using (hvalue.begins hs).nextKind_ne rfl rfl _
  · exact (ih hs trivial).imp_of_omits fun homits h ↦
      .retValue keyword h (hends.of_omits homits)
  · exact hends.relaxes.imp fun h ↦ .retValue keyword hvalue h

/-- The name of a module, and the separator of the import. -/
theorem relaxes_importModule (hvalue : Spells (.expr e) ts) (hends : Ends ts ends next)
    (ih : (Phrase.expr e).Relaxed ts) :
    (Phrase.stmt (.importModule keyword e) next).Relaxed (keyword :: (ts ++ ends)) := by
  rintro ⟨hkeyword, hs⟩ _ rfl
  refine .token hkeyword (by decide) (.append ?_ ?_)
  · exact (ih hs trivial).imp_of_omits fun homits h ↦
      .importModule keyword h (hends.of_omits homits)
  · exact hends.relaxes.imp fun h ↦ .importModule keyword hvalue h

/-- A condition, and a branch without another behind it. -/
theorem relaxes_ifThen (hopening : opening.kind = .leftParen) (hcondition : Spells (.expr e) ts)
    (hclose : close.kind = .rightParen) (htrue : Spells (.stmt s next) ts')
    (helse : next ≠ some .elseWord) (ih : (Phrase.expr e).Relaxed ts)
    (ih' : (Phrase.stmt s next).Relaxed ts') :
    (Phrase.stmt (.ifElse keyword e s none) next).Relaxed
      (keyword :: opening :: (ts ++ close :: ts')) := by
  rintro ⟨hkeyword, hs, hs', -⟩ next' hnext
  refine .token hkeyword (by decide) (.token hopening (by decide)
    (.joined (hclose ▸ by decide) ?_ ?_))
  · exact (ih hs trivial).imp fun h ↦ .ifThen keyword hopening h hclose htrue helse
  · exact (ih' hs' hnext).imp fun h ↦ .ifThen keyword hopening hcondition hclose h helse

/-- A condition and two branches. The separator of the first may stand before `else`. -/
theorem relaxes_ifElse {word : Token} (hopening : opening.kind = .leftParen)
    (h₁ : Spells (.expr e) ts) (hclose : close.kind = .rightParen)
    (h₂ : Spells (.stmt s (some .elseWord)) ts') (hword : word.kind = .elseWord)
    (h₃ : Spells (.stmt s' next) ts'') (ih₁ : (Phrase.expr e).Relaxed ts)
    (ih₂ : (Phrase.stmt s (some .elseWord)).Relaxed ts')
    (ih₃ : (Phrase.stmt s' next).Relaxed ts'') :
    (Phrase.stmt (.ifElse keyword e s (some s')) next).Relaxed
      (keyword :: opening :: (ts ++ close :: (ts' ++ word :: ts''))) := by
  rintro ⟨hkeyword, hs₁, hs₂, -, -, hs₃, -⟩ next' hnext
  refine .token hkeyword (by decide) (.token hopening (by decide)
    (.joined (hclose ▸ by decide) ?_ (.joined (hword ▸ by decide) ?_ ?_)))
  · exact (ih₁ hs₁ trivial).imp fun h ↦ .ifElse keyword hopening h hclose h₂ hword h₃
  · exact (ih₂ hs₂ (by simp [Phrase.Before, hword])).imp fun h ↦
      .ifElse keyword hopening h₁ hclose h hword h₃
  · exact (ih₃ hs₃ hnext).imp fun h ↦ .ifElse keyword hopening h₁ hclose h₂ hword h

/-- A condition and a body. -/
theorem relaxes_whileLoop (hkeyword : keyword.kind = .whileWord)
    (hopening : opening.kind = .leftParen) (hcondition : Spells (.expr e) ts)
    (hclose : close.kind = .rightParen) (hbody : Spells (.stmt s next) ts')
    (ih : (Phrase.expr e).Relaxed ts) (ih' : (Phrase.stmt s next).Relaxed ts') :
    (Phrase.stmt (.loop keyword e s) next).Relaxed
      (keyword :: opening :: (ts ++ close :: ts')) := by
  rintro ⟨-, hs, hs', -⟩ next' hnext
  refine .token hkeyword (by decide) (.token hopening (by decide)
    (.joined (hclose ▸ by decide) ?_ ?_))
  · exact (ih hs trivial).imp fun h ↦ .whileLoop hkeyword hopening h hclose hbody
  · exact (ih' hs' hnext).imp fun h ↦ .whileLoop hkeyword hopening hcondition hclose h

/-- The separators in the head of a `for` close nothing: a condition or an increment stands behind
them, or the other separator, or the closing parenthesis. -/
theorem relaxes_forLoop {initial : Option Stmt} {increment : Option Expr}
    {ts₁ ts₂ ts₃ ts₄ : List Token}
    {semicolon : Token} (hkeyword : keyword.kind = .forWord) (hopening : opening.kind = .leftParen)
    (h₁ : Spells (.initial initial (nextKind ts₂ (some .semicolon))) ts₁)
    (h₂ : Spells (.condition e) ts₂) (hsemicolon : semicolon.kind = .semicolon)
    (h₃ : Spells (.increment increment) ts₃) (hclose : close.kind = .rightParen)
    (h₄ : Spells (.stmt s next) ts₄) (hdecl : s.isDeclaration = false)
    (ih₁ : (Phrase.initial initial (nextKind ts₂ (some .semicolon))).Relaxed ts₁)
    (ih₂ : (Phrase.condition e).Relaxed ts₂) (ih₃ : (Phrase.increment increment).Relaxed ts₃)
    (ih₄ : (Phrase.stmt s next).Relaxed ts₄) :
    (Phrase.stmt (Grammar.desugarFor keyword initial e increment s) next).Relaxed
      (keyword :: opening :: (ts₁ ++ (ts₂ ++ semicolon :: (ts₃ ++ close :: ts₄)))) := by
  intro hs next' hnext
  obtain ⟨hs₁, hs₂, hs₃, hs₄⟩ := Grammar.stratified_of_desugarFor hs
  have hcondition := h₂.condition_begins hs₂
  have hincrement := h₃.increment_begins hs₃
  refine .token hkeyword (by decide) (.token hopening (by decide) (.append ?_ (.append ?_ ?_)))
  · refine (ih₁ hs₁ ⟨by simp [hsemicolon], ?_⟩).imp fun h ↦
      .forLoop hkeyword hopening h h₂ hsemicolon h₃ hclose h₄ hdecl rfl
    rcases hcondition with rfl | hbegins
    · decide
    · exact not_closing_of_begins hbegins _
  · refine (ih₂ hs₂ trivial).imp_of_omits fun homits h ↦
      .forLoop hkeyword hopening ?_ h hsemicolon h₃ hclose h₄ hdecl rfl
    rw [homits.nextKind_eq]
    · exact h₁
    · rcases hcondition with rfl | hbegins
      · decide
      · exact hbegins.nextKind_ne rfl rfl _
  refine .separator hsemicolon ?_ (.joined (hclose ▸ by decide) ?_ ?_)
  · rcases hincrement with rfl | hbegins
    · simp [hclose, Closing]
    · simpa using not_closing_of_begins hbegins _
  · exact (ih₃ hs₃ trivial).imp fun h ↦
      .forLoop hkeyword hopening h₁ h₂ hsemicolon h hclose h₄ hdecl rfl
  · exact (ih₄ hs₄ hnext).imp fun h ↦
      .forLoop hkeyword hopening h₁ h₂ hsemicolon h₃ hclose h hdecl rfl

/-- What follows a statement does not start with a separator, so it starts with the same token also
when a separator is left out of it. -/
theorem relaxes_stmts {body : List Stmt} (h : Spells (.stmt s (nextKind ts' next)) ts)
    (hrest : Spells (.stmts body next) ts') (ih : (Phrase.stmt s (nextKind ts' next)).Relaxed ts)
    (ih' : (Phrase.stmts body next).Relaxed ts') :
    (Phrase.stmts (s :: body) next).Relaxed (ts ++ ts') := by
  rintro ⟨hs, hs'⟩ _ rfl
  refine .append ((ih hs rfl).imp fun h ↦ .stmts h hrest) ?_
  refine (ih' hs' rfl).imp_of_omits fun homits hshorter ↦ .stmts ?_ hshorter
  rw [homits.nextKind_eq (hrest.stmts_ne_separator hs')]
  exact h

end Statements

/-- **A spelling stays one without a separator that may be missing.** -/
theorem Spells.relaxes {phrase : Phrase} {tokens : List Token} (h : Spells phrase tokens)
    (hs : phrase.Stratified) {next : Option Kind} (hnext : phrase.Before next) :
    Relaxes (Spells phrase) next tokens := by
  induction h generalizing next with
  | literal hv => exact .inert (inert_of_literal? hv) .nil
  | name name =>
    have hname : name.kind = .identifier := by simpa [Phrase.Stratified, Expr.Stratified] using hs
    exact .token hname (by decide) .nil
  | this keyword =>
    have hkeyword : keyword.kind = .thisWord := by
      simpa [Phrase.Stratified, Expr.Stratified] using hs
    exact .token hkeyword (by decide) .nil
  | super keyword method hdot =>
    exact .token hs.1 (by decide) (.token hdot (by decide) (.token hs.2 (by decide) .nil))
  | array bracket _ hclose ih =>
    exact .enclosed (hs.1 ▸ by decide) (hclose ▸ by decide)
      ((ih hs.2 trivial).imp fun h ↦ .array bracket h hclose)
  | grouping hopening _ hclose ih =>
    exact .enclosed (hopening ▸ by decide) (hclose ▸ by decide)
      ((ih hs trivial).imp fun h ↦ .grouping hopening h hclose)
  | literalFunction hkeyword hname _ ih =>
    exact .token hkeyword (by decide)
      ((ih hs.2.2 trivial).imp fun h ↦ .literalFunction hkeyword hname h)
  | unary operator _ ih =>
    obtain ⟨hoperator, hs, -⟩ := hs
    have hinert : operator.kind.Inert := by
      rcases hoperator with hkind | hkind <;> rw [hkind] <;> decide
    exact .inert hinert ((ih hs trivial).imp fun h ↦ .unary operator h)
  | reference operator _ ih =>
    exact .token hs.1 (by decide) ((ih hs.2.1 trivial).imp fun h ↦ .reference operator h)
  | binary operator h₁ h₂ ih₁ ih₂ => exact relaxes_binary h₁ h₂ ih₁ ih₂ hs hnext
  | logical operator h₁ h₂ ih₁ ih₂ => exact relaxes_logical h₁ h₂ ih₁ ih₂ hs hnext
  | ternary question h₁ h₂ hcolon h₃ ih₁ ih₂ ih₃ =>
    exact relaxes_ternary h₁ h₂ hcolon h₃ ih₁ ih₂ ih₃ hs hnext
  | assign name hequal _ ih =>
    exact .token hs.1 (by decide) (.token hequal (by decide)
      ((ih hs.2.1 trivial).imp fun h ↦ .assign name hequal h))
  | call paren h₁ hopening h₂ ih₁ ih₂ => exact relaxes_call h₁ hopening h₂ ih₁ ih₂ hs hnext
  | get name _ hdot ih => exact relaxes_get hdot ih hs hnext
  | set name h₁ hdot hequal h₂ ih₁ ih₂ =>
    exact relaxes_set h₁ hdot hequal h₂ ih₁ ih₂ hs hnext
  | subscript bracket h₁ hopening h₂ ih₁ ih₂ =>
    exact relaxes_subscript h₁ hopening h₂ ih₁ ih₂ hs hnext
  | setElement bracket h₁ hopening h₂ hequal h₃ ih₁ ih₂ ih₃ =>
    exact relaxes_setElement h₁ hopening h₂ hequal h₃ ih₁ ih₂ ih₃ hs hnext
  -- Arguments, elements and methods
  | noArguments | noElements | noMethods | noCondition | noIncrement | noStmts => exact .nil
  | lastArgument _ ih => exact (ih hs.1 trivial).imp .lastArgument
  | lastElement _ ih => exact (ih hs.1 trivial).imp .lastElement
  | argument h hcomma hne h' ih ih' =>
    exact .joined (hcomma ▸ by decide)
      ((ih hs.1 trivial).imp fun h ↦ .argument h hcomma hne h')
      ((ih' hs.2.2 trivial).imp fun h' ↦ .argument h hcomma hne h')
  | element h hcomma h' ih ih' =>
    exact .joined (hcomma ▸ by decide) ((ih hs.1 trivial).imp fun h ↦ .element h hcomma h')
      ((ih' hs.2.2 trivial).imp fun h' ↦ .element h hcomma h')
  | getter hopening _ hclose ih => exact relaxes_getter hopening hclose ih hs hnext
  | function hparen hnames hparen' hopening _ hclose ih =>
    exact relaxes_function hparen hnames hparen' hopening hclose ih hs hnext
  | method hname hf hrest ih ih' => exact relaxes_method hname hf hrest ih ih' hs hnext
  | classMethod hkeyword hname hf hrest ih ih' =>
    exact relaxes_classMethod hkeyword hname hf hrest ih ih' hs hnext
  -- Statements
  | expression hvalue hends ih => exact relaxes_expression hvalue hends ih hs hnext
  | var name hkeyword hends =>
    cases hnext
    have hname : name.kind = .identifier := by simpa [Phrase.Stratified, Stmt.Stratified] using hs
    exact .token hkeyword (by decide) (.token hname (by decide)
      (hends.relaxes.imp fun h ↦ .var name hkeyword h))
  | varInitial name hkeyword hequal hvalue hends ih =>
    exact relaxes_varInitial hkeyword hequal hvalue hends ih hs hnext
  | clause _ ih => exact (ih hs hnext).imp .clause
  | block hopening _ hclose ih =>
    exact .enclosed (hopening ▸ by decide) (hclose ▸ by decide)
      ((ih hs (by simp [Phrase.Before, hclose])).imp fun h ↦ .block hopening h hclose)
  | ifThen keyword hopening h₁ hclose h₂ helse ih₁ ih₂ =>
    exact relaxes_ifThen hopening h₁ hclose h₂ helse ih₁ ih₂ hs hnext
  | ifElse keyword hopening h₁ hclose h₂ hword h₃ ih₁ ih₂ ih₃ =>
    exact relaxes_ifElse hopening h₁ hclose h₂ hword h₃ ih₁ ih₂ ih₃ hs hnext
  | whileLoop hkeyword hopening h₁ hclose h₂ ih₁ ih₂ =>
    exact relaxes_whileLoop hkeyword hopening h₁ hclose h₂ ih₁ ih₂ hs hnext
  | forLoop hkeyword hopening h₁ h₂ hsemicolon h₃ hclose h₄ hdecl heq ih₁ ih₂ ih₃ ih₄ =>
    subst heq
    exact relaxes_forLoop hkeyword hopening h₁ h₂ hsemicolon h₃ hclose h₄ hdecl ih₁ ih₂ ih₃ ih₄ hs
      hnext
  | noInitial hsemicolon => exact .separator hsemicolon (hnext.1 ▸ hnext.2) .nil
  | initial _ ih => exact (ih (hs _ rfl) hnext.1).imp .initial
  | condition _ ih => exact (ih hs trivial).imp .condition
  | increment _ ih => exact (ih (hs _ rfl) trivial).imp .increment
  | ret keyword hends hslip =>
    cases hnext
    exact relaxes_ret (by simpa [Phrase.Stratified, Stmt.Stratified] using hs) hends hslip
  | retValue keyword hvalue hends ih => exact relaxes_retValue hvalue hends ih hs hnext
  | importModule keyword hvalue hends ih => exact relaxes_importModule hvalue hends ih hs hnext
  | classDecl name hkeyword hsuperclass hopening _ hclose ih =>
    exact relaxes_classDecl hkeyword hsuperclass hopening hclose ih hs hnext
  | functionDeclaration hkeyword hname hparameters _ ih =>
    obtain ⟨hkind, -, -, hs⟩ := hs
    exact .token hkeyword (by decide) (.token hkind (by decide)
      ((ih hs trivial).imp fun h ↦ .functionDeclaration hkeyword hname hparameters h))
  | stmts h hrest ih ih' => exact relaxes_stmts h hrest ih ih' hs hnext

/-! ### Programs -/

/-- The separator stands between a `return` and an `else`. -/
def BetweenReturnAndElse (before after : List Token) : Prop :=
  before.getLast?.map Token.kind = some .returnWord ∧ nextKind after none = some .elseWord

instance (before after : List Token) : Decidable (BetweenReturnAndElse before after) :=
  inferInstanceAs (Decidable (_ ∧ _))

/-- This is the one place in which the separator cannot be left out. -/
theorem not_apart_of_between {before after : List Token} (h : BetweenReturnAndElse before after) :
    ¬ Apart none (before ++ after) := by
  obtain ⟨hreturn, helse⟩ := h
  obtain ⟨keyword, hlast, hkeyword⟩ := Option.map_eq_some_iff.1 hreturn
  obtain ⟨front, rfl⟩ := List.getLast?_eq_some_iff.1 hlast
  simp [hkeyword, helse]

/-- **Separators are optional where a statement is at its end.** From a program that is parsed, a
separator before a closing brace, before `else` or at the end may be left out, and the same program
is parsed. Only between a `return` and an `else` it may not: then nothing is parsed. -/
theorem Program.parse_without_separator {before after : List Token} {separator eof : Token}
    {program : Program} (h : Program.parse (before ++ separator :: after) eof = .ok program)
    (hkind : separator.kind = .semicolon) (hclosing : Closing (nextKind after none)) :
    (¬ BetweenReturnAndElse before after →
      Program.parse (before ++ after) eof = .ok program) ∧
    (BetweenReturnAndElse before after →
      ∀ program', Program.parse (before ++ after) eof ≠ .ok program') := by
  refine ⟨fun hbetween ↦ ?_, fun hbetween program' hparse ↦ ?_⟩
  · obtain ⟨hs, hspells⟩ := says_of_parse h
    refine parse_of_says eof hs ((hspells.relaxes hs rfl).omits none _ ?_)
    refine .of_append hkind hclosing fun hreturn helse ↦ hbetween ⟨?_, helse⟩
    simpa using hreturn
  · obtain ⟨hs, hspells⟩ := says_of_parse hparse
    exact not_apart_of_between hbetween (hspells.relaxes hs rfl).apart

/-- That a program is parsed can be found out by parsing. -/
theorem Program.exists_of_isOk {tokens : List Token} {eof : Token}
    (h : (Program.parse tokens eof).isOk = true) :
    ∃ program, Program.parse tokens eof = .ok program := by
  cases hparse : Program.parse tokens eof with
  | ok program => exact ⟨program, rfl⟩
  | error errors => simp [hparse, Except.isOk, Except.toBool] at h

/-- The theorem at `if (a) b; else c`, whose separator stands between two branches. -/
theorem Program.parse_branches_without_separator :
    ∃ program, (Scan.ofSource 0 "if (a) b; else c").program = .ok program ∧
      Program.parse ((Scan.ofSource 0 "if (a) b; else c").tokens.eraseIdx 5)
        (Scan.ofSource 0 "if (a) b; else c").eof = .ok program := by
  obtain ⟨program, hparse⟩ :
      ∃ program, (Scan.ofSource 0 "if (a) b; else c").program = .ok program :=
    exists_of_isOk (by decide +kernel)
  have hsplit : (Scan.ofSource 0 "if (a) b; else c").tokens =
      (Scan.ofSource 0 "if (a) b; else c").tokens.take 5 ++ ⟨.semicolon, ";", 1, 8, 5, .nil⟩ ::
        (Scan.ofSource 0 "if (a) b; else c").tokens.drop 6 := by
    decide +kernel
  refine ⟨program, hparse, ?_⟩
  rw [Scan.program, hsplit] at hparse
  rw [List.eraseIdx_eq_take_drop_succ]
  exact (parse_without_separator hparse rfl (by decide +kernel)).1 (by decide +kernel)

/-- **The separator between a `return` and an `else` is not optional**: `if (a) return; else b` is
parsed, and without the separator it is not. -/
theorem Program.separator_needed_before_else :
    ¬ ∀ (before after : List Token) (separator eof : Token) (program : Program),
      Program.parse (before ++ separator :: after) eof = .ok program →
      separator.kind = .semicolon → Closing (nextKind after none) →
      Program.parse (before ++ after) eof = .ok program := by
  intro hoptional
  let scan := Scan.ofSource 0 "if (a) return; else b"
  obtain ⟨program, hparse⟩ : ∃ program, Program.parse
      (scan.tokens.take 5 ++ ⟨.semicolon, ";", 1, 13, 5, .nil⟩ :: scan.tokens.drop 6) scan.eof =
        .ok program :=
    exists_of_isOk (by decide +kernel)
  have hfails :
      (Program.parse (scan.tokens.take 5 ++ scan.tokens.drop 6) scan.eof).isOk = false := by
    decide +kernel
  rw [hoptional _ _ _ _ _ hparse rfl (by decide +kernel)] at hfails
  cases hfails

end AliasScript
