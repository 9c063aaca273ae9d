import AliasScript.Proofs.Program.Within
import AliasScript.Proofs.Simulation

/-!
# Recovery is local

A program that is made of portions, each with a separator behind it, is parsed portion by portion.
What is wrong with one of them is noticed in it and nowhere else, so the errors of the program are
those of its portions, and if there are none, so are its statements. A portion (`Portion`) has no
separators, braces and `for` in it, and it does not go on with the `if` before it.

**Two runs are followed at once**: one reads the portion and its separator alone, the other reads
them in front of more tokens and behind errors that were recorded before (`Junction`). Up to the
separator both see the same tokens (`Cursor.Before`). Expressions never read the separator, a
statement may end behind it (`Cursor.Behind`), and nothing that fails has read it; going on after an
error stops right behind it.
-/

namespace AliasScript

/-! ### Portions -/

/-- The kinds of tokens of which portions are made. -/
def Kind.Plain (kind : Kind) : Prop :=
  kind ∉ [.semicolon, .leftBrace, .rightBrace, .forWord, .eof]

instance (kind : Kind) : Decidable kind.Plain :=
  inferInstanceAs (Decidable (kind ∉ _))

/-- A kind of which portions are made is none of those that they may not have. -/
theorem Kind.Plain.ne {kind : Kind} (h : kind.Plain) (other : Kind) (hother : ¬ other.Plain) :
    kind ≠ other :=
  fun heq ↦ hother (heq ▸ h)

/-- A portion of a program: tokens with a separator behind them. -/
structure Portion where
  tokens : List Token
  separator : Token
  ne_nil : tokens ≠ []
  plain : ∀ t ∈ tokens, t.kind.Plain
  not_else : nextKind tokens none ≠ some .elseWord
  separator_kind : separator.kind = .semicolon

/-- All tokens of a portion. -/
def Portion.all (s : Portion) : List Token :=
  s.tokens ++ [s.separator]

/-- Where a portion stands in a program: behind errors that were recorded, and before a separator
and more tokens. -/
structure Junction where
  earlier : List GrammarError
  separator : Token
  later : List Token
  separator_kind : separator.kind = .semicolon
  not_else : nextKind later none ≠ some .elseWord

/-! ### Two runs -/

namespace Cursor

variable {J : Junction} {c c' : Cursor}

/-- The first run reads a portion alone, the second where it stands. Both are in it, or before its
separator. -/
structure Before (J : Junction) (c c' : Cursor) : Prop where
  rest : ∃ tokens : List Token, (∀ t ∈ tokens, t.kind.Plain) ∧ c.rest = tokens ++ [J.separator] ∧
    c'.rest = tokens ++ J.separator :: J.later
  after_eq : c.after .rightBrace = false ∧ c'.after .rightBrace = false
  errors : c'.errors.toList = J.earlier ++ c.errors.toList

/-- Both runs are behind the separator. -/
structure Behind (J : Junction) (c c' : Cursor) : Prop where
  rest : c.rest = []
  rest' : c'.rest = J.later
  after_eq : c'.after .rightBrace = false
  errors : c'.errors.toList = J.earlier ++ c.errors.toList

namespace Before

/-- Either the separator is next, or a token of the portion. -/
theorem cases_rest (h : c.Before J c') :
    (c.rest = [J.separator] ∧ c'.rest = J.separator :: J.later) ∨
      ∃ t tokens, t.kind.Plain ∧ (∀ t ∈ tokens, t.kind.Plain) ∧
        c.rest = t :: (tokens ++ [J.separator]) ∧
        c'.rest = t :: (tokens ++ J.separator :: J.later) := by
  obtain ⟨tokens, hplain, hrest, hrest'⟩ := h.rest
  cases tokens with
  | nil => exact .inl ⟨hrest, hrest'⟩
  | cons t tokens =>
    obtain ⟨ht, htokens⟩ := List.forall_mem_cons.1 hplain
    exact .inr ⟨t, tokens, ht, htokens, hrest, hrest'⟩

/-- Both runs see the same token next. -/
theorem exists_next (h : c.Before J c') :
    ∃ t rest rest', c.rest = t :: rest ∧ c'.rest = t :: rest' ∧
      (t.kind = .semicolon ∨ t.kind.Plain) := by
  rcases h.cases_rest with ⟨hrest, hrest'⟩ | ⟨t, tokens, ht, -, hrest, hrest'⟩
  · exact ⟨_, _, _, hrest, hrest', .inl J.separator_kind⟩
  · exact ⟨_, _, _, hrest, hrest', .inr ht⟩

/-- The two cursors see the same token. -/
theorem peek_eq (h : c.Before J c') : c.peek = c'.peek := by
  obtain ⟨t, rest, rest', hrest, hrest', -⟩ := h.exists_next
  rw [peek, peek, hrest, hrest']
  rfl

theorem check_eq (h : c.Before J c') (kind : Kind) : c.check kind = c'.check kind := by
  obtain ⟨t, rest, rest', hrest, hrest', -⟩ := h.exists_next
  rw [check, check, hrest, hrest']

/-- Neither has come to the end, since the separator is still to be read. -/
theorem atEnd_eq (h : c.Before J c') : c.atEnd = false ∧ c'.atEnd = false := by
  obtain ⟨t, rest, rest', hrest, hrest', -⟩ := h.exists_next
  rw [atEnd, atEnd, hrest, hrest']
  exact ⟨rfl, rfl⟩

/-- The same error is recorded on both sides, in the longer run behind the earlier ones. -/
theorem record (h : c.Before J c') (token : Token) (cause : GrammarCause) :
    (c.record token cause).Before J (c'.record token cause) where
  rest := h.rest
  after_eq := h.after_eq
  errors := by simp [Cursor.record, h.errors]

/-- Reading a token of the portion. -/
theorem advance (h : c.Before J c') {t : Token} {rest : List Token} (hrest : c.rest = t :: rest)
    (ht : t.kind ≠ .semicolon) : c.advance.Before J c'.advance := by
  rcases h.cases_rest with ⟨hsep, -⟩ | ⟨t', tokens, hplain, hplains, hcons, hcons'⟩
  · rw [hsep] at hrest
    cases hrest
    exact absurd J.separator_kind ht
  · have hbrace := beq_eq_false_iff_ne.2 (hplain.ne .rightBrace (by decide))
    unfold Cursor.advance
    rw [hcons, hcons']
    exact ⟨⟨tokens, hplains, rfl, rfl⟩, ⟨hbrace, hbrace⟩, h.errors⟩

/-- Reading the separator. -/
theorem advance_separator (h : c.Before J c') {t : Token} {rest : List Token}
    (hrest : c.rest = t :: rest) (ht : t.kind = .semicolon) : c.advance.Behind J c'.advance := by
  rcases h.cases_rest with ⟨hsep, hsep'⟩ | ⟨t', tokens, hplain, -, hcons, -⟩
  · unfold Cursor.advance
    rw [hsep, hsep']
    exact ⟨rfl, rfl, by simp [Cursor.after, J.separator_kind], h.errors⟩
  · rw [hcons] at hrest
    cases hrest
    exact absurd ht (hplain.ne _ (by decide))

/-- Skipping goes no further than behind a separator. -/
theorem skip_separator (J : Junction) (later : List Token) :
    skip J.separator later = (J.separator, later) := by
  cases later <;> simp [skip, J.separator_kind]

/-- Skipping ends before a token of the portion, the same in both runs, or right behind the
separator. -/
theorem skip_eq (J : Junction) {tokens : List Token} (hplain : ∀ t ∈ tokens, t.kind.Plain)
    {last : Token} (hlast : last.kind.Plain) :
    (∃ last' rest, last'.kind.Plain ∧ (∀ t ∈ rest, t.kind.Plain) ∧
      skip last (tokens ++ [J.separator]) = (last', rest ++ [J.separator]) ∧
      skip last (tokens ++ J.separator :: J.later) = (last', rest ++ J.separator :: J.later)) ∨
    skip last (tokens ++ [J.separator]) = (J.separator, []) ∧
      skip last (tokens ++ J.separator :: J.later) = (J.separator, J.later) := by
  induction tokens generalizing last with
  | nil =>
    have hgoes := beq_eq_false_iff_ne.2 (hlast.ne .semicolon (by decide))
    right
    simp [skip, hgoes, J.separator_kind, startsStatement, skip_separator]
  | cons t tokens ih =>
    have hgoes := beq_eq_false_iff_ne.2 (hlast.ne .semicolon (by decide))
    obtain ⟨ht, htokens⟩ := List.forall_mem_cons.1 hplain
    simp only [List.cons_append, skip, hgoes, Bool.false_or]
    split
    · exact .inl ⟨last, t :: tokens, hlast, hplain, rfl, rfl⟩
    · exact ih htokens ht

/-- **Going on after an error stays in the portion or stops right behind it.** -/
theorem synchronize (h : c.Before J c') :
    c.synchronize.Before J c'.synchronize ∨ c.synchronize.Behind J c'.synchronize := by
  unfold Cursor.synchronize
  rcases h.cases_rest with ⟨hsep, hsep'⟩ | ⟨t, tokens, ht, hplain, hcons, hcons'⟩
  · rw [hsep, hsep']
    simp only [skip_separator]
    exact .inr ⟨rfl, rfl, by simp [Cursor.after, J.separator_kind], h.errors⟩
  · rw [hcons, hcons']
    rcases skip_eq J hplain ht with ⟨last, rest, hlast, hrest, hskip, hskip'⟩ | ⟨hskip, hskip'⟩
    · simp only [hskip, hskip']
      have hbrace := beq_eq_false_iff_ne.2 (hlast.ne .rightBrace (by decide))
      exact .inl ⟨⟨rest, hrest, rfl, rfl⟩, ⟨hbrace, hbrace⟩, h.errors⟩
    · simp only [hskip, hskip']
      exact .inr ⟨rfl, rfl, by simp [Cursor.after, J.separator_kind], h.errors⟩

end Before

end Cursor

/-! ### The first parsers -/

/-- **The parser stays before the separator**, and does the same in both runs. -/
abbrev Parse.StaysBefore {α : Type} (J : Junction) (p : Parse α) : Prop :=
  Simulates (Cursor.Before J) Eq Eq p p

namespace Parse

variable {J : Junction} {α β : Type}

theorem before_exhausted : StaysBefore J (exhausted : Parse α) :=
  .throw rfl

/-- A failure happens in front of the separator. -/
theorem before_failHere (cause : GrammarCause) : StaysBefore J (failHere cause : Parse α) :=
  .bind .get fun _ _ hc ↦ .throw (by rw [hc.peek_eq])

theorem before_record (token : Token) (cause : GrammarCause) :
    StaysBefore J (record token cause) :=
  .modified fun _ _ hc ↦ hc.record token cause

/-- The next token is the same, and is a separator in both runs or in neither. -/
theorem before_check (kind : Kind) : StaysBefore J (check kind) :=
  .bind .get fun _ _ hc ↦ .pure (hc.check_eq kind)

theorem before_atEnd : StaysBefore J atEnd :=
  .bind .get fun _ _ hc ↦ .pure (by rw [hc.atEnd_eq.1, hc.atEnd_eq.2])

/-- An optional token that is no separator is one of the portion, or is not there in both runs. -/
theorem acceptIf_cases (test : Kind → Bool) (htest : test .semicolon = false) {c c' : Cursor}
    (hc : c.Before J c') :
    (∃ t : Token, t.kind.Plain ∧ test t.kind = true ∧ acceptIf test c = .ok (some t) c.advance ∧
      acceptIf test c' = .ok (some t) c'.advance ∧ c.advance.Before J c'.advance) ∨
    acceptIf test c = .ok none c ∧ acceptIf test c' = .ok none c' := by
  obtain ⟨t, rest, rest', hrest, hrest', ht⟩ := hc.exists_next
  cases hkind : test t.kind with
  | true =>
    have hne : t.kind ≠ .semicolon := by
      intro heq
      rw [heq, htest] at hkind
      cases hkind
    exact .inl ⟨t, ht.resolve_left hne, hkind, acceptIf_of_test hrest hkind,
      acceptIf_of_test hrest' hkind, hc.advance hrest hne⟩
  | false =>
    exact .inr ⟨acceptIf_of_not (by simp [hrest, hkind]), acceptIf_of_not (by simp [hrest', hkind])⟩

/-- **A test that no separator passes**: a token that passes is one of the portion. -/
theorem before_acceptIf {test : Kind → Bool} (htest : test .semicolon = false)
    {A : β → β → Prop} {next : Option Token → Parse β}
    (hsome : ∀ t : Token, t.kind.Plain → test t.kind = true →
      Simulates (Cursor.Before J) Eq A (next (some t)) (next (some t)))
    (hnone : Simulates (Cursor.Before J) Eq A (next none) (next none)) :
    Simulates (Cursor.Before J) Eq A (acceptIf test >>= next) (acceptIf test >>= next) := by
  intro c c' hc
  rcases acceptIf_cases test htest hc with ⟨t, ht, hkind, hread, hread', hadvance⟩ | ⟨hnot, hnot'⟩
  · rw [bind_of_ok hread, bind_of_ok hread']
    exact hsome t ht hkind _ _ hadvance
  · rw [bind_of_ok hnot, bind_of_ok hnot']
    exact hnone c c' hc

/-- An optional token of a kind other than that of separators. -/
theorem before_accept {kind : Kind} (hkind : kind ≠ .semicolon) {next : Option Token → Parse β}
    (hsome : ∀ t : Token, StaysBefore J (next (some t))) (hnone : StaysBefore J (next none)) :
    StaysBefore J (accept kind >>= next) :=
  before_acceptIf (by simpa using hkind.symm) (fun t _ _ ↦ hsome t) hnone

/-- If anything but a separator is required, the separator is not read by it. -/
theorem before_expect {kind : Kind} (hkind : kind ≠ .semicolon) (cause : GrammarCause) :
    StaysBefore J (expect kind cause) :=
  before_accept hkind (fun _ ↦ .pure rfl) (before_failHere cause)

/-- Nothing is read behind a token that no portion has. -/
theorem before_expect_not {kind : Kind} (hkind : kind ≠ .semicolon) (hplain : ¬ kind.Plain)
    (cause : GrammarCause) (next : Token → Parse β) :
    StaysBefore J (expect kind cause >>= next) := by
  have hnever : Simulates (Cursor.Before J) Eq (fun _ _ ↦ False) (expect kind cause)
      (expect kind cause) := by
    refine before_acceptIf (by simpa using hkind.symm) (fun t ht htest ↦ ?_) ?_
    · exact absurd (eq_of_beq htest) (ht.ne _ hplain)
    · exact .bind .get fun _ _ hc ↦ .throw (by rw [hc.peek_eq])
  exact .bind hnever fun _ _ h ↦ h.elim

/-- Too many items of a sequence are recorded in both runs. -/
theorem before_recordIf {b : Prop} {_ : Decidable b} {cause : GrammarCause}
    {next : Unit → Parse α} (h : StaysBefore J (next ())) :
    StaysBefore J (if b then (do let c ← get; let u ← record c.peek cause; next u)
      else next ()) := by
  refine .ite (fun _ ↦ .bind .get fun c c' hc ↦ ?_) fun _ ↦ h
  rw [← hc.peek_eq]
  exact .bindSame (before_record _ cause) fun _ ↦ h

end Parse

/-! ### Expressions -/

namespace Grammar

open Parse

variable {J : Junction}

/-- The parsers for nested expressions stay before the separator. -/
structure StaysBefore (J : Junction) (g : Grammar) : Prop where
  unary : Parse.StaysBefore J g.unary
  ternary : Parse.StaysBefore J g.ternary
  assignment : Parse.StaysBefore J g.assignment
  expression : Parse.StaysBefore J g.expression

/-- No operator is a separator, so a chain ends in front of it. -/
theorem before_chainFrom {level : Level} (hlevel : level.operators.contains .semicolon = false)
    {operand : Parse Expr} (hoperand : Parse.StaysBefore J operand) (n : Nat) (left : Expr) :
    Parse.StaysBefore J (chainFrom level operand n left) := by
  induction n generalizing left with
  | zero => exact before_exhausted
  | succ n ih =>
    refine before_acceptIf hlevel (fun operator _ _ ↦ ?_) (.pure rfl)
    exact .bindSame hoperand fun right ↦ ih _

theorem before_chain {level : Level} (hlevel : level.operators.contains .semicolon = false)
    {operand : Parse Expr} (hoperand : Parse.StaysBefore J operand) (rounds : Nat) :
    Parse.StaysBefore J (chain rounds level operand) :=
  .bindSame hoperand fun left ↦ before_chainFrom hlevel hoperand rounds left

/-- The levels of operators stay in front of the separator. -/
theorem before_ladder {operand : Parse Expr} (hoperand : Parse.StaysBefore J operand)
    (rounds : Nat) {ladder : List Level}
    (hladder : ∀ level ∈ ladder, level.operators.contains .semicolon = false) :
    Parse.StaysBefore J (Grammar.ladder rounds operand ladder) := by
  induction ladder with
  | nil => exact hoperand
  | cons level tighter ih =>
    obtain ⟨hlevel, htighter⟩ := List.forall_mem_cons.1 hladder
    exact before_chain hlevel (ih htighter) rounds

/-- A list of parameters ends in front of the separator, or fails there. -/
theorem before_parametersFrom (n count : Nat) :
    Parse.StaysBefore J (parametersFrom n count) := by
  induction n generalizing count with
  | zero => exact before_exhausted
  | succ n ih =>
    unfold parametersFrom
    refine before_recordIf (.bindSame (before_expect (by decide) _) fun parameter ↦ ?_)
    exact before_accept (by decide) (fun _ ↦ .bindSame (ih _) fun _ ↦ .pure rfl) (.pure rfl)

section Nested

variable {g : Grammar} (hg : g.StaysBefore J)

omit hg in
theorem before_parameterList (opening : GrammarCause) :
    Parse.StaysBefore J (parameterList g opening) := by
  refine .bindSame (before_expect (by decide) _) fun _ ↦ .bindSame (before_check _) fun closed ↦ ?_
  have hrest (parameters : List Token) : Parse.StaysBefore J
      (do let _ ← Parse.expect .rightParen .parametersEnd; pure parameters) :=
    .bindSame (before_expect (by decide) _) fun _ ↦ .pure rfl
  exact .ite (fun _ ↦ .bindSame (.pure rfl) hrest)
    fun _ ↦ .bindSame (before_parametersFrom _ _) hrest

omit hg in
/-- A function has braces, which no portion has. -/
theorem before_functionFrom (name : Option Token) (opening : GrammarCause) :
    Parse.StaysBefore J (functionFrom g name opening) := by
  refine .bindSame (before_parameterList opening) fun parameters ↦ ?_
  refine .bindSame ?_ fun _ ↦ .pure rfl
  exact before_expect_not (by decide) (by decide) _ _

include hg

/-- The elements of an array. -/
theorem before_elementsFrom (n : Nat) : Parse.StaysBefore J (elementsFrom g n) := by
  induction n with
  | zero => exact before_exhausted
  | succ n ih =>
    refine before_accept (by decide) (fun _ ↦ .pure rfl) (.bindSame before_atEnd fun ended ↦ ?_)
    refine .ite (fun _ ↦ .bindSame (before_failHere _) fun _ ↦ ?_) fun _ ↦ ?_
    all_goals
      refine .bindSame hg.assignment fun _ ↦ .bindSame (before_check _) fun closed ↦ ?_
      refine .ite (fun _ ↦ ?_) fun _ ↦ .bindSame (before_expect (by decide) _) fun _ ↦ ?_
      all_goals exact .bindSame ih fun _ ↦ .pure rfl

/-- The arguments of a call. -/
theorem before_argumentsFrom (n count : Nat) : Parse.StaysBefore J (argumentsFrom g n count) := by
  induction n generalizing count with
  | zero => exact before_exhausted
  | succ n ih =>
    unfold argumentsFrom
    refine before_recordIf (.bindSame hg.assignment fun argument ↦ ?_)
    exact before_accept (by decide) (fun _ ↦ .bindSame (ih _) fun _ ↦ .pure rfl) (.pure rfl)

theorem before_callFrom (callee : Expr) : Parse.StaysBefore J (callFrom g callee) := by
  refine .bindSame (before_check _) fun closed ↦ ?_
  have hrest (arguments : List Expr) : Parse.StaysBefore J
      (do let paren ← expect .rightParen .argumentsEnd; pure (Expr.call callee paren arguments)) :=
    .bindSame (before_expect (by decide) _) fun _ ↦ .pure rfl
  exact .ite (fun _ ↦ .bindSame (.pure rfl) hrest)
    fun _ ↦ .bindSame (before_argumentsFrom hg _ _) hrest

/-- An operand is a token of the portion. A brace would be needed for a function. -/
theorem before_primaryFrom (t : Token) : Parse.StaysBefore J (primaryFrom g t) := by
  unfold primaryFrom
  split
  · exact .pure rfl
  · exact .pure rfl
  · exact .pure rfl
  · exact .pure rfl
  · exact .pure rfl
  · exact .map (before_functionFrom none _) fun _ _ ↦ congrArg _
  · exact .map (before_elementsFrom hg _) fun _ _ ↦ congrArg _
  · exact .bindSame hg.expression fun _ ↦ .bindSame (before_expect (by decide) _) fun _ ↦ .pure rfl
  · exact .pure rfl
  · exact .pure rfl
  · exact .bindSame (before_expect (by decide) _) fun _ ↦
      .bindSame (before_expect (by decide) _) fun _ ↦ .pure rfl

theorem before_primary : Parse.StaysBefore J (primary g) :=
  before_acceptIf rfl (fun t _ _ ↦ before_primaryFrom hg t) (before_failHere _)

/-- Behind an operand no separator is read. -/
theorem before_postfixFrom (n : Nat) (e : Expr) : Parse.StaysBefore J (postfixFrom g n e) := by
  induction n generalizing e with
  | zero => exact before_exhausted
  | succ n ih =>
    refine before_acceptIf rfl (fun t _ _ ↦ ?_) (.pure rfl)
    dsimp only
    split
    · exact .bindSame (before_callFrom hg e) ih
    · exact .bindSame (before_expect (by decide) _) fun _ ↦ ih _
    · exact .bindSame hg.assignment fun _ ↦ .bindSame (before_expect (by decide) _) fun _ ↦ ih _

theorem before_postfixExpr : Parse.StaysBefore J (postfixExpr g) :=
  .bindSame (before_primary hg) fun e ↦ before_postfixFrom hg _ e

/-- An operator with its operand. -/
theorem before_unaryHere : Parse.StaysBefore J (unaryHere g) := by
  refine before_acceptIf rfl (fun operator _ _ ↦ ?_) (before_postfixExpr hg)
  refine .bindSame hg.unary fun operand ↦ ?_
  refine .ite (fun _ ↦ .ite (fun _ ↦ .pure rfl) fun _ ↦ ?_) fun _ ↦ .pure rfl
  exact .bindSame (before_record _ _) fun _ ↦ .pure rfl

theorem before_operation : Parse.StaysBefore J (operation g) :=
  before_ladder (before_unaryHere hg) _ (by decide)

/-- A conditional expression. -/
theorem before_ternaryHere : Parse.StaysBefore J (ternaryHere g) := by
  refine .bindSame (before_operation hg) fun condition ↦
    before_accept (by decide) (fun question ↦ ?_) (.pure rfl)
  exact .bindSame (before_operation hg) fun _ ↦ .bindSame (before_expect (by decide) _) fun _ ↦
    .bindSame hg.ternary fun _ ↦ .pure rfl

/-- An assignment, with the error at a target that is none. -/
theorem before_assignmentHere : Parse.StaysBefore J (assignmentHere g) := by
  refine .bindSame (before_ternaryHere hg) fun target ↦
    before_accept (by decide) (fun equal ↦ ?_) (.pure rfl)
  refine .bindSame hg.assignment fun value ↦ ?_
  split
  · exact .pure rfl
  · exact .bindSame (before_record _ _) fun _ ↦ .pure rfl

/-- **Expressions never read the separator.** -/
theorem before_expressionHere : Parse.StaysBefore J (expressionHere g) :=
  before_chain rfl (before_assignmentHere hg) _

end Nested

end Grammar

/-! ### Statements -/

/-- What both runs have come to: the same value, before the separator or behind it, or the same
failure before it. -/
inductive Parse.Settled {α : Type} (J : Junction) :
    EStateM.Result ParseFailure Cursor α → EStateM.Result ParseFailure Cursor α → Prop
  | before {a : α} {d d' : Cursor} : d.Before J d' → Settled J (.ok a d) (.ok a d')
  | behind {a : α} {d d' : Cursor} : d.Behind J d' → Settled J (.ok a d) (.ok a d')
  | failed {e : ParseFailure} {d d' : Cursor} : d.Before J d' → Settled J (.error e d) (.error e d')

/-- **A statement ends before the separator or behind it**, and does the same in both runs. -/
def Parse.Settles {α : Type} (J : Junction) (p : Parse α) : Prop :=
  ∀ c c', Cursor.Before J c c' → Settled J (p c) (p c')

namespace Parse

variable {J : Junction} {α β : Type} {p : Parse α}

/-- What stays in front of the separator settles there. -/
theorem StaysBefore.settles (h : StaysBefore J p) : Settles J p := by
  intro c c' hc
  have hmatches := h c c' hc
  generalize p c = r at hmatches
  generalize p c' = r' at hmatches
  cases hmatches with
  | ok ha hd =>
    cases ha
    exact .before hd
  | error he hd =>
    cases he
    exact .failed hd

namespace Settles

/-- What stays before the separator may stand before what ends there. -/
theorem bind (h : StaysBefore J p) {next : α → Parse β} (hnext : ∀ a, Settles J (next a)) :
    Settles J (p >>= next) := by
  intro c c' hc
  have hmatches := h c c' hc
  show Settled J (EStateM.bind p next c) (EStateM.bind p next c')
  unfold EStateM.bind
  generalize p c = r at hmatches
  generalize p c' = r' at hmatches
  cases hmatches with
  | ok ha hd =>
    cases ha
    exact hnext _ _ _ hd
  | error he hd =>
    cases he
    exact .failed hd

/-- What is made of the result does not matter. -/
theorem map (h : Settles J p) (f : α → β) : Settles J (f <$> p) := by
  intro c c' hc
  have hsettled := h c c' hc
  show Settled J (EStateM.map f p c) (EStateM.map f p c')
  unfold EStateM.map
  generalize p c = r at hsettled
  generalize p c' = r' at hsettled
  cases hsettled with
  | before hd => exact .before hd
  | behind hd => exact .behind hd
  | failed hd => exact .failed hd

/-- A choice that both runs make alike. -/
theorem ite {b : Prop} {_ : Decidable b} {q : Parse α} (hp : b → Settles J p)
    (hq : ¬ b → Settles J q) : Settles J (if b then p else q) := by
  by_cases h : b
  · rw [if_pos h]
    exact hp h
  · rw [if_neg h]
    exact hq h

/-- A statement that an `else` may go on with. Behind the separator there is none. -/
theorem bind_else (h : Settles J p) {f : α → β} {other : α → Parse β}
    (hother : ∀ a, Settles J (other a)) :
    Settles J (do
      let a ← p
      match ← accept .elseWord with
      | some _ => other a
      | none => return f a) := by
  intro c c' hc
  have hsettled := h c c' hc
  show Settled J (EStateM.bind p _ c) (EStateM.bind p _ c')
  unfold EStateM.bind
  generalize p c = r at hsettled
  generalize p c' = r' at hsettled
  cases hsettled with
  | @before a d d' hd =>
    rcases acceptIf_cases (· == .elseWord) rfl hd with
      ⟨t, -, -, hread, hread', hadvance⟩ | ⟨hnot, hnot'⟩
    · show Settled J ((acceptIf _ >>= _) d) ((acceptIf _ >>= _) d')
      rw [bind_of_ok hread, bind_of_ok hread']
      exact hother a _ _ hadvance
    · show Settled J ((acceptIf _ >>= _) d) ((acceptIf _ >>= _) d')
      rw [bind_of_ok hnot, bind_of_ok hnot']
      exact .before hd
  | @behind a d d' hd =>
    have hnot : acceptIf (· == .elseWord) d = .ok none d :=
      acceptIf_of_not (by simp [hd.rest])
    have hnot' : acceptIf (· == .elseWord) d' = .ok none d' := by
      refine acceptIf_of_not fun t ht ↦ beq_eq_false_iff_ne.2 fun hkind ↦ ?_
      rw [hd.rest'] at ht
      obtain ⟨later, hlater⟩ := List.head?_eq_some_iff.1 ht
      exact J.not_else (by rw [hlater, nextKind_cons, hkind])
    show Settled J ((acceptIf _ >>= _) d) ((acceptIf _ >>= _) d')
    rw [bind_of_ok hnot, bind_of_ok hnot']
    exact .behind hd
  | failed hd => exact .failed hd

end Settles

/-- A parser that goes on behind a token, or without one. -/
theorem settles_acceptIf {test : Kind → Bool} (htest : test .semicolon = false)
    {next : Option Token → Parse β}
    (hsome : ∀ t : Token, t.kind.Plain → test t.kind = true → Settles J (next (some t)))
    (hnone : Settles J (next none)) : Settles J (acceptIf test >>= next) := by
  intro c c' hc
  rcases acceptIf_cases test htest hc with ⟨t, ht, hkind, hread, hread', hadvance⟩ | ⟨hnot, hnot'⟩
  · rw [bind_of_ok hread, bind_of_ok hread']
    exact hsome t ht hkind _ _ hadvance
  · rw [bind_of_ok hnot, bind_of_ok hnot']
    exact hnone c c' hc

/-- **The end of a statement is the separator**, or it stands before `else`. -/
theorem settles_terminator (cause : GrammarCause) : Settles J (terminator cause) := by
  intro c c' hc
  obtain ⟨t, rest, rest', hrest, hrest', ht⟩ := hc.exists_next
  cases hkind : t.kind == .semicolon with
  | true =>
    show Settled J ((acceptIf (· == .semicolon) >>= _) c) ((acceptIf (· == .semicolon) >>= _) c')
    rw [bind_of_ok (acceptIf_of_test hrest hkind), bind_of_ok (acceptIf_of_test hrest' hkind)]
    exact .behind (hc.advance_separator hrest (eq_of_beq hkind))
  | false =>
    show Settled J ((acceptIf (· == .semicolon) >>= _) c) ((acceptIf (· == .semicolon) >>= _) c')
    rw [bind_of_ok (acceptIf_of_not (by simpa [hrest] using hkind)),
      bind_of_ok (acceptIf_of_not (by simpa [hrest'] using hkind))]
    show Settled J
      ((if c.check .rightBrace || c.check .elseWord || c.atEnd || c.after .rightBrace then pure ()
        else failHere cause : Parse Unit) c)
      ((if c'.check .rightBrace || c'.check .elseWord || c'.atEnd || c'.after .rightBrace then
        pure () else failHere cause : Parse Unit) c')
    rw [hc.check_eq, hc.check_eq, hc.atEnd_eq.1, hc.atEnd_eq.2, hc.after_eq.1, hc.after_eq.2]
    split
    · exact .before hc
    · exact (before_failHere cause).settles c c' hc

theorem settles_accept {kind : Kind} (hkind : kind ≠ .semicolon) {next : Option Token → Parse β}
    (hsome : ∀ t : Token, Settles J (next (some t))) (hnone : Settles J (next none)) :
    Settles J (accept kind >>= next) :=
  settles_acceptIf (by simpa using hkind.symm) (fun t _ _ ↦ hsome t) hnone

end Parse

namespace Grammar

open Parse

variable {J : Junction} {g : Grammar} (hg : g.StaysBefore J)

include hg

/-- A statement of an expression ends behind the separator, or fails in front of it. -/
theorem settles_expressionStatement : Settles J (expressionStatement g) :=
  .bind (before_expressionHere hg) fun _ ↦ (settles_terminator _).map _

/-- A declaration of a variable likewise. -/
theorem settles_varFrom : Settles J (varFrom g) := by
  refine .bind (before_expect (by decide) _) fun name ↦ ?_
  have hrest (initial : Option Expr) : Settles J
      (do terminator .variableEnd; pure (Stmt.var name initial)) :=
    (settles_terminator _).map _
  refine settles_accept (by decide) (fun _ ↦ ?_) (.bind (.pure rfl) hrest)
  exact .bind (.map (before_expressionHere hg) fun _ _ ↦ congrArg some) hrest

/-- A return, whose value is missing if the separator is next. -/
theorem settles_returnFrom (keyword : Token) : Settles J (returnFrom g keyword) := by
  have hrest (value : Option Expr) : Settles J
      (do terminator .returnEnd; pure (Stmt.ret keyword value)) :=
    (settles_terminator _).map _
  intro c c' hc
  show Settled J
    ((if c.check .semicolon || c.check .rightBrace || c.atEnd then _ else _ : Parse Stmt) c)
    ((if c'.check .semicolon || c'.check .rightBrace || c'.atEnd then _ else _ : Parse Stmt) c')
  rw [hc.check_eq, hc.check_eq, hc.atEnd_eq.1, hc.atEnd_eq.2]
  have hvalue : Parse.StaysBefore J (some <$> g.expression) :=
    .map hg.expression fun _ _ ↦ congrArg some
  exact Settles.ite (fun _ ↦ .bind (.pure rfl) hrest) (fun _ ↦ .bind hvalue hrest) c c' hc

theorem settles_importFrom (keyword : Token) : Settles J (importFrom g keyword) :=
  .bind hg.expression fun _ ↦ (settles_terminator _).map _

section Branches

variable (hstatement : Settles J g.statement)

include hstatement

/-- A branch is a statement, and what stands behind it does not start with `else`. -/
theorem settles_ifFrom (keyword : Token) : Settles J (ifFrom g keyword) := by
  refine .bind (before_expect (by decide) _) fun _ ↦ .bind hg.expression fun condition ↦
    .bind (before_expect (by decide) _) fun _ ↦ ?_
  exact .bind_else hstatement fun whenTrue ↦ hstatement.map _

/-- The body of a loop is a statement. -/
theorem settles_whileFrom (keyword : Token) : Settles J (whileFrom g keyword) :=
  .bind (before_expect (by decide) _) fun _ ↦ .bind hg.expression fun _ ↦
    .bind (before_expect (by decide) _) fun _ ↦ hstatement.map _

/-- A portion has neither blocks nor `for` in it. -/
theorem settles_statementFrom {t : Token} (hplain : t.kind.Plain)
    (hstarts : startsKeywordStatement t.kind = true) : Settles J (statementFrom g t) := by
  unfold statementFrom
  split
  · exact settles_ifFrom hg hstatement t
  · exact settles_returnFrom hg t
  · exact settles_whileFrom hg hstatement t
  · next hkind => exact absurd hkind (hplain.ne _ (by decide))
  · exact settles_importFrom hg t
  · next hif hreturn hwhile hfor himport =>
    -- All that is left is a block, and a portion has no braces.
    have hkind : t.kind = .leftBrace := by
      unfold startsKeywordStatement at hstarts
      split at hstarts <;> simp_all
    exact absurd hkind (hplain.ne _ (by decide))

theorem settles_statementHere : Settles J (statementHere g) :=
  settles_acceptIf rfl (fun _ ↦ settles_statementFrom hg hstatement)
    (settles_expressionStatement hg)

/-! ### Declarations -/

omit hg hstatement in
/-- A class needs a brace, so that it fails in front of the separator. -/
theorem before_classFrom : Parse.StaysBefore J (classFrom g) := by
  refine .bindSame (before_expect (by decide) _) fun name ↦ ?_
  have hrest (superclass : Option Token) : Parse.StaysBefore J (classBody g name superclass) :=
    before_expect_not (by decide) (by decide) _ _
  refine before_accept (by decide) (fun _ ↦ ?_) (.bindSame (.pure rfl) hrest)
  exact .bindSame (.map (before_expect (by decide) _) fun _ _ ↦ congrArg some) hrest

omit hg hstatement in
/-- A function needs a brace as well. -/
theorem before_functionDeclarationFrom : Parse.StaysBefore J (functionDeclarationFrom g) :=
  .bindSame (before_expect (by decide) _) fun _ ↦
    .bindSame (before_functionFrom _ _) fun _ ↦ .pure rfl

omit hg hstatement in
/-- A look at two tokens does not go past the separator. -/
theorem startsFunctionDeclaration_before {c c' : Cursor} (hc : c.Before J c') :
    startsFunctionDeclaration c.rest = startsFunctionDeclaration c'.rest := by
  rcases hc.cases_rest with ⟨hrest, hrest'⟩ | ⟨t, tokens, -, -, hrest, hrest'⟩
  · rw [hrest, hrest']
    cases J.later <;> simp [startsFunctionDeclaration, J.separator_kind]
  · rw [hrest, hrest']
    cases tokens <;> simp [startsFunctionDeclaration, J.separator_kind]

/-- **A declaration settles**: it ends behind the separator, or fails in front of it. -/
theorem settles_declare : Settles J (declare g) := by
  refine settles_accept (by decide) (fun _ ↦ before_classFrom.settles) ?_
  intro c c' hc
  show Settled J ((if startsFunctionDeclaration c.rest then _ else _ : Parse Stmt) c)
    ((if startsFunctionDeclaration c'.rest then _ else _ : Parse Stmt) c')
  rw [← startsFunctionDeclaration_before hc]
  split
  · next hstarts =>
    obtain ⟨t, rest, -, hrest, -⟩ := hc.exists_next
    have ht : t.kind ≠ .semicolon := by
      rw [hrest] at hstarts
      unfold startsFunctionDeclaration at hstarts
      split at hstarts <;> simp_all
    exact before_functionDeclarationFrom.settles _ _ (hc.advance hrest ht)
  · refine settles_accept (by decide) (fun _ ↦ settles_varFrom hg) ?_ c c' hc
    exact settles_statementHere hg hstatement

/-- **After an error, reading goes on in the portion or right behind it**, so a declaration ends in
the portion or behind it in any case. -/
theorem settles_declaration : Settles J (declaration g) := by
  intro c c' hc
  have hsettled := settles_declare hg hstatement c c' hc
  show Settled J (recovering (declare g) c) (recovering (declare g) c')
  unfold recovering
  generalize declare g c = r at hsettled
  generalize declare g c' = r' at hsettled
  cases hsettled with
  | before hd => exact .before hd
  | behind hd => exact .behind hd
  | @failed e d d' hd =>
    cases e with
    | exhausted => exact .failed hd
    | error e =>
      rcases (hd.record e.token e.cause).synchronize with hbefore | hbehind
      · exact .before hbefore
      · exact .behind hbehind

end Branches

omit hg in
/-- All parsers for nested expressions and statements. -/
theorem settles_ofDepth (rounds n : Nat) :
    (ofDepth rounds n).StaysBefore J ∧ Settles J (ofDepth rounds n).statement := by
  induction n with
  | zero =>
    exact ⟨⟨before_exhausted, before_exhausted, before_exhausted, before_exhausted⟩,
      before_exhausted.settles⟩
  | succ n ih =>
    obtain ⟨hg, hstatement⟩ := ih
    exact ⟨⟨before_unaryHere hg, before_ternaryHere hg, before_assignmentHere hg,
      before_expressionHere hg⟩, settles_statementHere hg hstatement⟩

end Grammar

/-! ### Programs -/

namespace Grammar

open Parse

variable {g : Grammar}

/-- A program that is not empty has a declaration and a program behind it. -/
theorem exists_of_programFrom {n : Nat} {c d : Cursor} {program : Program} (hne : c.rest ≠ [])
    (h : g.programFrom (n + 1) c = .ok program d) :
    ∃ s c₁ rest, declaration g c = .ok s c₁ ∧ g.programFrom n c₁ = .ok rest d ∧
      program = s.toList ++ rest := by
  rw [programFrom_of_ne_nil n hne] at h
  cases hs : declaration g c with
  | error e c₁ =>
    rw [bind_of_error hs] at h
    cases h
  | ok s c₁ =>
    rw [bind_of_ok hs] at h
    cases hrest : g.programFrom n c₁ with
    | error e c₂ =>
      rw [bind_of_error hrest] at h
      cases h
    | ok rest c₂ =>
      rw [bind_of_ok hrest] at h
      cases h
      exact ⟨s, c₁, rest, rfl, hrest, rfl⟩

/-- **A portion is read as it is alone**, and what follows it is read behind it. -/
theorem programFrom_portion {J : Junction} (hg : g.StaysBefore J)
    (hstatement : Settles J g.statement) {n : Nat} {c c' d : Cursor} {program : Program}
    (hc : c.Before J c') (h : g.programFrom n c = .ok program d) :
    ∃ k d', d.Behind J d' ∧ ∀ m rest e, g.programFrom m d' = .ok rest e →
      g.programFrom (m + k) c' = .ok (program ++ rest) e := by
  induction n generalizing c c' program with
  | zero => cases h
  | succ n ih =>
    obtain ⟨t, tokens, tokens', htokens, htokens', -⟩ := hc.exists_next
    have hne' : c'.rest ≠ [] := by simp [htokens']
    obtain ⟨s, c₁, rest, hs, hrest, rfl⟩ := exists_of_programFrom (by simp [htokens]) h
    have hsettled := settles_declaration hg hstatement c c' hc
    rw [hs] at hsettled
    generalize hs' : declaration g c' = r' at hsettled
    cases hsettled with
    | before hc₁ =>
      obtain ⟨k, d', hd, hlater⟩ := ih hc₁ hrest
      refine ⟨k + 1, d', hd, fun m later e hm ↦ ?_⟩
      rw [List.append_assoc]
      exact programFrom_declaration _ hne' hs' (hlater m later e hm)
    | @behind _ _ d' hc₁ =>
      -- Alone, the portion is at its end.
      cases n with
      | zero => cases hrest
      | succ n =>
        rw [programFrom_of_nil n hc₁.rest] at hrest
        cases hrest
        refine ⟨1, d', hc₁, fun m later e hm ↦ ?_⟩
        rw [List.append_nil]
        exact programFrom_declaration m hne' hs' hm

end Grammar

namespace Program

/-- What larger bounds lead to is what is parsed. -/
theorem parse_eq_of_le (I : Input) {bound m : Nat} (hbound : I.tokens.length < bound)
    (hm : I.tokens.length < m) :
    ∃ program d, (Grammar.ofDepth bound bound).programFrom m ⟨I.tokens, I.eof, none, #[]⟩ =
        .ok program d ∧
      parse I.tokens I.eof =
        if d.errors.toList = [] then .ok program else .error d.errors.toList := by
  have hgrammar := Grammar.proceeds_ofDepth (I := I) (Nat.lt_succ_self I.tokens.length) hbound
    (Nat.le_succ _) (Nat.le_of_lt hbound) (Nat.le_refl _) _ List.mem_cons_self
  have hstart : Cursor.Beside I ⟨I.tokens, I.eof, none, #[]⟩ ⟨I.tokens, I.eof, none, #[]⟩ :=
    ⟨.start I none, .start I none, rfl, rfl⟩
  obtain ⟨program, d, d', hd, hd', hbeside, -⟩ := Grammar.programFrom_proceeds hgrammar
    (Nat.le_refl _) hstart (Nat.lt_succ_self _) (Nat.lt_succ_self I.tokens.length) hm
  refine ⟨program, d', hd', ?_⟩
  simp only [parse, hd, ← hbeside.errors, Array.isEmpty_iff, Array.toList_eq_nil_iff]

/-- The errors of what was parsed. -/
def errorsOf : Except (List GrammarError) Program → List GrammarError
  | .ok _ => []
  | .error errors => errors

/-- The statements of what was parsed. -/
def statementsOf : Except (List GrammarError) Program → Program
  | .ok program => program
  | .error _ => []

/-- The errors of a program that is given up if there are any. -/
theorem errorsOf_ite (errors : List GrammarError) (program : Program) :
    errorsOf (if errors = [] then .ok program else .error errors) = errors := by
  split
  · next h => exact h.symm
  · rfl

end Program

open Program (errorsOf statementsOf)

namespace Portion

/-- What follows a portion does not start with `else`. -/
theorem nextKind_flatMap_ne (portions : List Portion) :
    nextKind (portions.flatMap all) none ≠ some .elseWord := by
  cases portions with
  | nil => exact nofun
  | cons s portions =>
    obtain ⟨t, tokens, htokens⟩ := List.exists_cons_of_ne_nil s.ne_nil
    have hnot := s.not_else
    rw [htokens] at hnot
    simpa [all, htokens] using hnot

/-- A portion is no longer than the program. -/
theorem length_le {portions : List Portion} {s : Portion} (h : s ∈ portions) :
    s.all.length ≤ (portions.flatMap all).length := by
  obtain ⟨before, after, rfl⟩ := List.append_of_mem h
  simp only [List.flatMap_append, List.flatMap_cons, List.length_append]
  omega

/-- **Portions are read one after the other**, each as it is alone. -/
theorem programFrom_portions {bound : Nat} (ends : Portion → Token) (portions : List Portion)
    (hbound : ∀ s ∈ portions, s.all.length < bound) {c : Cursor}
    (hrest : c.rest = portions.flatMap all) (hafter : c.after .rightBrace = false) :
    ∃ n program d, (∀ m, (Grammar.ofDepth bound bound).programFrom (m + n) c = .ok program d) ∧
      d.errors.toList = c.errors.toList ++
        portions.flatMap (fun s ↦ errorsOf (Program.parse s.all (ends s))) ∧
      (portions.flatMap (fun s ↦ errorsOf (Program.parse s.all (ends s))) = [] →
        program = portions.flatMap fun s ↦ statementsOf (Program.parse s.all (ends s))) := by
  induction portions generalizing c with
  | nil => exact ⟨1, [], c, fun m ↦ Grammar.programFrom_of_nil m hrest, by simp, fun _ ↦ rfl⟩
  | cons s portions ih =>
    obtain ⟨hs, hportions⟩ := List.forall_mem_cons.1 hbound
    obtain ⟨program, d, hd, hparse⟩ := Program.parse_eq_of_le ⟨s.all, ends s⟩ hs hs
    have hown : errorsOf (Program.parse s.all (ends s)) = d.errors.toList := by
      rw [show Program.parse s.all (ends s) = _ from hparse, Program.errorsOf_ite]
    let J : Junction := ⟨c.errors.toList, s.separator, portions.flatMap all, s.separator_kind,
      nextKind_flatMap_ne portions⟩
    have hbefore : Cursor.Before J ⟨s.all, ends s, none, #[]⟩ c := by
      refine ⟨⟨s.tokens, s.plain, rfl, ?_⟩, ⟨rfl, hafter⟩, by simp [J]⟩
      rw [hrest, List.flatMap_cons, all, List.append_assoc, List.singleton_append]
    obtain ⟨hg, hstatement⟩ := Grammar.settles_ofDepth (J := J) bound bound
    obtain ⟨k, d', hbehind, hlater⟩ := Grammar.programFrom_portion hg hstatement hbefore hd
    obtain ⟨n, rest, e, he, herrors, hrest⟩ := ih hportions hbehind.rest' hbehind.after_eq
    refine ⟨n + k, program ++ rest, e, fun m ↦ ?_, ?_, fun hnone ↦ ?_⟩
    · rw [← Nat.add_assoc]
      exact hlater (m + n) rest e (he m)
    · rw [herrors, hbehind.errors, List.flatMap_cons, hown, List.append_assoc]
    · rw [List.flatMap_cons, List.append_eq_nil_iff, hown] at hnone
      rw [List.flatMap_cons, hrest hnone.2, show Program.parse s.all (ends s) = _ from hparse,
        if_pos hnone.1]
      rfl

end Portion

/-- **Recovery is local.** A program made of portions has the errors of its portions, each parsed
alone, in their order; and if there are none, it has their statements. -/
theorem Program.parse_portions (portions : List Portion) (eof : Token) (ends : Portion → Token) :
    parse (portions.flatMap Portion.all) eof =
      if portions.flatMap (fun s ↦ errorsOf (parse s.all (ends s))) = [] then
        .ok (portions.flatMap fun s ↦ statementsOf (parse s.all (ends s)))
      else .error (portions.flatMap fun s ↦ errorsOf (parse s.all (ends s))) := by
  have hbound : ∀ s ∈ portions, s.all.length < (portions.flatMap Portion.all).length + 1 :=
    fun s hs ↦ Nat.lt_succ_of_le (Portion.length_le hs)
  obtain ⟨n, program, d, hrun, herrors, hprogram⟩ := Portion.programFrom_portions ends portions
    hbound (c := ⟨portions.flatMap Portion.all, eof, none, #[]⟩) rfl rfl
  obtain ⟨program', d', hrun', hparse⟩ := parse_eq_of_le ⟨portions.flatMap Portion.all, eof⟩
    (Nat.lt_succ_self _) (Nat.lt_add_right n (Nat.lt_succ_self _))
  cases (hrun _).symm.trans hrun'
  rw [show parse (portions.flatMap Portion.all) eof = _ from hparse, herrors]
  simp only [List.nil_append]
  split
  · next hnone => rw [hprogram hnone]
  · rfl

/-- The portion `b c;`, in which an expression goes on behind its end. -/
def Portion.faulty : Portion where
  tokens := [⟨.identifier, "b", 1, 0, 0, .nil⟩, ⟨.identifier, "c", 1, 2, 1, .nil⟩]
  separator := ⟨.semicolon, ";", 1, 3, 2, .nil⟩
  ne_nil := by decide
  plain := by decide
  not_else := by decide
  separator_kind := rfl

/-- The portion `d;` behind it. -/
def Portion.sound : Portion where
  tokens := [⟨.identifier, "d", 1, 5, 3, .nil⟩]
  separator := ⟨.semicolon, ";", 1, 6, 4, .nil⟩
  ne_nil := by decide
  plain := by decide
  not_else := by decide
  separator_kind := rfl

/-- The theorem at `b c; d;`. What is wrong with the first portion is the only error, and the second
is read as it is alone. -/
theorem Program.parse_portions_faulty_sound :
    let scan := Scan.ofSource 0 "b c; d;"
    let errors : List GrammarError := [⟨⟨.identifier, "c", 1, 2, 1, .nil⟩, .expressionEnd⟩]
    scan.tokens = Portion.faulty.all ++ Portion.sound.all ∧
      errorsOf (parse Portion.faulty.all scan.eof) = errors ∧
      errorsOf (parse Portion.sound.all scan.eof) = [] ∧
      parse scan.tokens scan.eof = .error errors := by
  intro scan errors
  have htokens : scan.tokens = Portion.faulty.all ++ Portion.sound.all := by decide +kernel
  have hfaulty : errorsOf (parse Portion.faulty.all scan.eof) = errors := by decide +kernel
  have hsound : errorsOf (parse Portion.sound.all scan.eof) = [] := by decide +kernel
  have hportions := parse_portions [.faulty, .sound] scan.eof fun _ ↦ scan.eof
  refine ⟨htokens, hfaulty, hsound, ?_⟩
  rw [htokens]
  simpa [hfaulty, hsound, errors] using hportions

end AliasScript
