import AliasScript.Proofs.Program.Reading
import AliasScript.Proofs.Program.Says

/-!
# The expressions that the grammar gives

What each parser of expressions gives, for a grammar whose parsers for nested parts keep their
promise already (`Grammar.Sound`): a stratified tree of the rank that the parser is for, spelled by
the tokens read, with nothing behind it that would go on with it.
-/

namespace AliasScript

namespace Grammar

open Parse

/-! ### What the parsers promise -/

/-- What a parser of expressions down to a rank gives. -/
def ReadExpr (rank : Rank) (read : List Token) (e : Expr) (c : Cursor) : Prop :=
  Says rank read e ∧ Stops rank c.next?

/-- What a parser of statements gives. An open `if` at the end has found no `else`. -/
def ReadStmt (read : List Token) (s : Stmt) (c : Cursor) : Prop :=
  s.Stratified ∧ s.isDeclaration = false ∧ (s.endsOpen = true → c.next? ≠ some .elseWord) ∧
    Spells (.stmt s c.next?) read

/-- What a parser of sequences gives. -/
def ReadStmts (read : List Token) (body : List Stmt) (c : Cursor) : Prop :=
  StmtsStratified body ∧ Spells (.stmts body c.next?) read

/-- What a parser of blocks gives: the statements, without the closing brace. -/
def ReadBlock (read : List Token) (body : List Stmt) (_ : Cursor) : Prop :=
  ∃ ts close, read = ts ++ [close] ∧ close.kind = .rightBrace ∧ StmtsStratified body ∧
    Spells (.stmts body (some .rightBrace)) ts

/-- The parsers for nested parts give stratified trees of what they read. -/
structure Sound (g : Grammar) : Prop where
  unary : Reads g.unary (ReadExpr .unary)
  ternary : Reads g.ternary (ReadExpr .ternary)
  assignment : Reads g.assignment (ReadExpr .assignment)
  expression : Reads g.expression (ReadExpr .comma)
  statement : Reads g.statement ReadStmt
  block : Reads g.block ReadBlock

variable {g : Grammar}

/-! ### Binary operators -/

/-- **The loop of a chain**, with the tokens of its left operand read before. -/
theorem reads_chainFrom {level : Level} {rank tighter : Rank} {operand : Parse Expr}
    (hlevel : level.Has rank) (hrank : tighter.height = rank.height + 1)
    (hoperand : Reads operand (ReadExpr tighter)) (n : Nat) (left : Expr) :
    Reads (chainFrom level operand n left) fun read e c ↦ ∀ before c', Cursor.Spans c' read c →
      Says rank before left → Stops tighter c'.next? → ReadExpr rank (before ++ read) e c := by
  have hlt : rank < tighter := by
    rw [Rank.lt_def]
    omega
  induction n generalizing left with
  | zero => exact reads_exhausted
  | succ n ih =>
    refine reads_acceptIf.bind_spans fun a ↦ ?_
    cases a with
    | none =>
      refine .pure ?_
      rintro c read c₁ hspans₁ (⟨t, ht, -⟩ | ⟨-, rfl, hnext⟩) before c' hspans hleft hstops
      · cases ht
      rw [hspans₁.next?] at hnext
      rw [hspans.next?] at hstops
      simp only [List.append_nil]
      exact ⟨hleft, hlevel.stops hrank hstops hnext⟩
    | some operator =>
      refine hoperand.bind_spans fun right ↦ (ih _).imp ?_
      rintro read₃ e c h read₂ c₂ hspans₂ ⟨hright, hstops₂⟩ read₁ c₁ -
        (⟨t, ht, rfl, hop⟩ | ⟨hnone, -⟩) before c' - hleft -
      · cases ht
        have hnode := hlevel.join hop hleft (hright.mono (Rank.le_of_lt hlt))
          (Rank.lt_of_lt_of_le hlt hright.le_rank)
        have := h _ c₂ hspans₂ hnode hstops₂
        simpa only [List.append_assoc, List.cons_append, List.nil_append] using this
      · cases hnone

/-- A chain of operators gives an expression of its rank. -/
theorem reads_chain (rounds : Nat) {level : Level} {rank tighter : Rank} {operand : Parse Expr}
    (hlevel : level.Has rank) (hrank : tighter.height = rank.height + 1)
    (hoperand : Reads operand (ReadExpr tighter)) :
    Reads (chain rounds level operand) (ReadExpr rank) := by
  have hle : rank ≤ tighter := by
    rw [Rank.le_def]
    omega
  refine hoperand.bind_spans fun left ↦ (reads_chainFrom hlevel hrank hoperand rounds left).imp ?_
  rintro read₂ e c h read₁ c₁ hspans ⟨hleft, hstops⟩
  exact h read₁ c₁ hspans (hleft.mono hle) hstops

/-- The table goes from the rank of the disjunction to that of the prefix operators, level by
level. -/
theorem reads_ladder {rounds : Nat} {operand : Parse Expr}
    (hoperand : Reads operand (ReadExpr .unary)) :
    Reads (ladder rounds operand levels) (ReadExpr .disjunction) := by
  have multiplicative := reads_chain rounds has_multiplicative rfl hoperand
  have additive := reads_chain rounds has_additive rfl multiplicative
  have comparison := reads_chain rounds has_comparison rfl additive
  have equality := reads_chain rounds has_equality rfl comparison
  have conjunction := reads_chain rounds has_conjunction rfl equality
  exact reads_chain rounds has_disjunction rfl conjunction

/-! ### Primaries and calls -/

/-- Parameters are read with the commas between them, and are no more than the maximum. -/
theorem reads_parametersFrom (n count : Nat) :
    Reads (parametersFrom n count) fun read ts _ ↦
      count + ts.length ≤ maxParameters ∧ (∀ t ∈ ts, t.kind = .identifier) ∧ ts ≠ [] ∧
        SpellsNames ts read := by
  induction n generalizing count with
  | zero => exact reads_exhausted
  | succ n ih =>
    unfold parametersFrom
    refine reads_recordIf ?_
    refine reads_expect.bind fun parameter ↦ reads_accept.bind fun comma ↦ ?_
    cases comma with
    | some comma =>
      refine (ih (count + 1)).bind fun rest ↦ .pure ?_
      rintro c read c' ⟨hlength, hkinds, hne, hspells⟩ read₂ c₂ (⟨t, ht, rfl, hcomma⟩ | ⟨hnone, -⟩)
        read₁ c₁ ⟨rfl, hkind⟩ -
      · refine ⟨by simp only [List.length_cons]; omega, by simpa [hkind] using hkinds, by simp, ?_⟩
        simpa using .cons parameter t hcomma hne hspells
      · cases hnone
    | none =>
      refine .pure ?_
      rintro c read c' (⟨t, ht, -⟩ | ⟨-, rfl, -⟩) read₁ c₁ ⟨rfl, hkind⟩ hcount
      · cases ht
      · exact ⟨by simp only [List.length_singleton]; omega, by simp [hkind], by simp,
          .last parameter⟩

/-- A list of parameters is stratified, between its parentheses. -/
theorem reads_parameterList {opening : GrammarCause} :
    Reads (parameterList g opening) fun read ts _ ↦ ParametersStratified ts ∧
      ∃ paren paren' ts', read = paren :: (ts' ++ [paren']) ∧ paren.kind = .leftParen ∧
        SpellsNames ts ts' ∧ paren'.kind = .rightParen := by
  refine reads_expect.bind fun paren ↦ reads_check.bind fun closed ↦ ?_
  refine .bind_ite (P := fun read ts _ ↦ ParametersStratified ts ∧ SpellsNames ts read)
    (fun _ ↦ .pure fun _ ↦ ?_) (fun _ ↦ ?_) fun ts ↦ reads_expect.bind fun paren' ↦ .pure ?_
  · exact ⟨⟨Nat.zero_le _, by simp⟩, .none⟩
  · exact (reads_parametersFrom _ 0).imp fun read ts _ h ↦ ⟨⟨by omega, h.2.1⟩, h.2.2.2⟩
  · rintro c read₄ c₄ ⟨rfl, hparen'⟩ read₃ c₃ ⟨hts, hspells⟩ read₂ c₂ ⟨rfl, -⟩ read₁ c₁
      ⟨rfl, hparen⟩
    exact ⟨hts, paren, paren', read₃, by simp, hparen, hspells, hparen'⟩

/-- The body of a function is what a block gives. -/
theorem reads_functionBody (hg : g.Sound) {opening : GrammarCause} :
    Reads (functionBody g opening) fun read body c ↦
      ∃ brace later, read = brace :: later ∧ brace.kind = .leftBrace ∧ ReadBlock later body c := by
  refine reads_expect.bind fun brace ↦ hg.block.imp ?_
  rintro read₂ body c hbody read₁ c₁ ⟨rfl, hbrace⟩
  exact ⟨brace, read₂, rfl, hbrace, hbody⟩

/-- A function has the name that was read before it. -/
theorem reads_functionFrom (hg : g.Sound) {name : Option Token} {opening : GrammarCause} :
    Reads (functionFrom g name opening) fun read f _ ↦
      f.name = name ∧ f.parameters.isSome ∧ f.Stratified ∧ Spells (.function f) read := by
  refine reads_parameterList.bind fun parameters ↦ (reads_functionBody hg).bind fun body ↦ .pure ?_
  rintro c _ c₂ ⟨brace, _, rfl, hbrace, ts', close, rfl, hclose, hbody, hspells'⟩ _ c₁
    ⟨hparameters, paren, paren', ts, rfl, hparen, hspells, hparen'⟩
  refine ⟨rfl, rfl, ⟨by simpa using hparameters, hbody⟩, ?_⟩
  simpa using .function hparen hspells hparen' hbrace hspells' hclose

/-- A method has its name, and parameters if it is not a getter. -/
theorem reads_methodFrom (hg : g.Sound) {name : Token} :
    Reads (methodFrom g name) fun read f _ ↦
      f.name = some name ∧ f.Stratified ∧ Spells (.function f) read := by
  unfold methodFrom
  refine reads_check.bind fun listed ↦ .ite (fun _ ↦ ?_) fun _ ↦ ?_
  · refine Reads.bind (P := fun read parameters _ ↦ ∃ ts, parameters = some ts ∧
      ParametersStratified ts ∧ ∃ paren paren' ts', read = paren :: (ts' ++ [paren']) ∧
        paren.kind = .leftParen ∧ SpellsNames ts ts' ∧ paren'.kind = .rightParen)
      (.map (reads_parameterList.imp fun read ts c h ↦ ⟨ts, rfl, h⟩)) fun parameters ↦
        (reads_functionBody hg).bind fun body ↦ .pure ?_
    rintro c _ c₂ ⟨brace, _, rfl, hbrace, ts', close, rfl, hclose, hbody, hspells'⟩ _ c₁
      ⟨parameters, rfl, hparameters, paren, paren', ts, rfl, hparen, hspells, hparen'⟩ _ c₀ ⟨rfl, -⟩
    refine ⟨rfl, ⟨by simpa using hparameters, hbody⟩, ?_⟩
    simpa using .function hparen hspells hparen' hbrace hspells' hclose
  · refine Reads.bind (P := fun read parameters _ ↦ read = [] ∧ parameters = none)
      (.pure fun _ ↦ ⟨rfl, rfl⟩) fun parameters ↦ (reads_functionBody hg).bind fun body ↦ .pure ?_
    rintro c _ c₂ ⟨brace, _, rfl, hbrace, ts', close, rfl, hclose, hbody, hspells'⟩ _ c₁ ⟨rfl, rfl⟩
      _ c₀ ⟨rfl, -⟩
    refine ⟨rfl, ⟨by simp, hbody⟩, ?_⟩
    simpa using .getter hbrace hspells' hclose

/-- The elements of an array, with its closing bracket. -/
theorem reads_elementsFrom (hg : g.Sound) (n : Nat) :
    Reads (elementsFrom g n) fun read es _ ↦ ExprsStratified es ∧
      ∃ ts close, read = ts ++ [close] ∧ close.kind = .rightBracket ∧ Spells (.elements es) ts := by
  induction n with
  | zero => exact reads_exhausted
  | succ n ih =>
    refine reads_accept.bind fun bracket ↦ ?_
    cases bracket with
    | some bracket =>
      refine .pure ?_
      rintro c read c₁ (⟨t, ht, rfl, hkind⟩ | ⟨hnone, -⟩)
      · exact ⟨trivial, [], t, rfl, hkind, .noElements⟩
      · cases hnone
    | none =>
      refine reads_atEnd.bind fun ended ↦ .ite (fun _ ↦ reads_failHere_bind) fun _ ↦ ?_
      refine hg.assignment.bind fun element ↦ reads_check.bind_spans fun closed ↦ .ite
        (fun hclosed ↦ ih.bind fun rest ↦ .pure ?_)
        fun _ ↦ reads_expect.bind fun comma ↦ ih.bind fun rest ↦ .pure ?_
      · rintro c _ c₄ ⟨hrest, ts, close, rfl, hclose, hspells'⟩ _ c₃ hspans ⟨rfl, rfl⟩
          read₂ c₂ ⟨⟨helement, hle, hspells⟩, -⟩ _ c₁ ⟨rfl, -⟩ _ c₀ (⟨t, ht, -⟩ | ⟨-, rfl, -⟩)
        · cases ht
        -- No comma: the closing bracket is next, and so there is no other element.
        rw [Cursor.check_eq_true_iff, hspans.next?] at hclosed
        have hnil : rest = [] ∧ ts = [] := by
          cases hspells' with
          | noElements => exact ⟨rfl, rfl⟩
          | lastElement h =>
            simp only [List.append_nil, nextKind_append] at hclosed
            exact absurd hclosed ((h.begins hrest.1).nextKind_ne rfl rfl _)
          | element h =>
            simp only [List.append_nil, nextKind_append] at hclosed
            exact absurd hclosed ((h.begins hrest.1).nextKind_ne rfl rfl _)
        obtain ⟨rfl, rfl⟩ := hnil
        exact ⟨⟨helement, hle, hrest⟩, read₂, close, by simp, hclose, .lastElement hspells⟩
      · rintro c _ c₄ ⟨hrest, ts, close, rfl, hclose, hspells'⟩ _ c₃ ⟨rfl, hcomma⟩ _ c₃' - ⟨rfl, -⟩
          read₂ c₂ ⟨⟨helement, hle, hspells⟩, -⟩ _ c₁ ⟨rfl, -⟩ _ c₀ (⟨t, ht, -⟩ | ⟨-, rfl, -⟩)
        · cases ht
        · exact ⟨⟨helement, hle, hrest⟩, _, close, by simp, hclose,
            .element hspells hcomma hspells'⟩

/-- The arguments of a call, no more than the maximum. -/
theorem reads_argumentsFrom (hg : g.Sound) (n count : Nat) :
    Reads (argumentsFrom g n count) fun read es _ ↦
      count + es.length ≤ maxArguments ∧ ExprsStratified es ∧ es ≠ [] ∧
        Spells (.arguments es) read := by
  induction n generalizing count with
  | zero => exact reads_exhausted
  | succ n ih =>
    unfold argumentsFrom
    refine reads_recordIf ?_
    refine hg.assignment.bind fun argument ↦ reads_accept.bind fun comma ↦ ?_
    cases comma with
    | some _ =>
      refine (ih (count + 1)).bind fun rest ↦ .pure ?_
      rintro c read c' ⟨hlength, hrest, hne, hspells'⟩ read₂ c₂ (⟨t, ht, rfl, hcomma⟩ | ⟨hnone, -⟩)
        read₁ c₁ ⟨⟨harg, hle, hspells⟩, -⟩ -
      · refine ⟨by simp only [List.length_cons]; omega, ⟨harg, hle, hrest⟩, by simp, ?_⟩
        simpa using .argument hspells hcomma hne hspells'
      · cases hnone
    | none =>
      refine .pure ?_
      rintro c read c' (⟨t, ht, -⟩ | ⟨-, rfl, -⟩) read₁ c₁ ⟨⟨harg, hle, hspells⟩, -⟩ hcount
      · cases ht
      · refine ⟨by simp only [List.length_singleton]; omega, ⟨harg, hle, trivial⟩, by simp, ?_⟩
        simpa using .lastArgument hspells

/-- A call of what was read before its parenthesis. -/
theorem reads_callFrom (hg : g.Sound) (callee : Expr) :
    Reads (callFrom g callee) fun read e _ ↦ ∀ before (opening : Token),
      opening.kind = .leftParen → Says .call before callee →
        Says .call (before ++ opening :: read) e := by
  refine reads_check.bind fun closed ↦ .bind_ite
    (P := fun read es _ ↦ es.length ≤ maxArguments ∧ ExprsStratified es ∧
      Spells (.arguments es) read)
    (fun _ ↦ .pure fun _ ↦ ⟨Nat.zero_le _, trivial, .noArguments⟩)
    (fun _ ↦ ?_) fun arguments ↦ reads_expect.bind fun paren ↦ .pure ?_
  · refine (reads_argumentsFrom hg _ 0).imp fun read es _ h ↦ ⟨by omega, h.2.1, h.2.2.2⟩
  · rintro c _ c₃ ⟨rfl, hparen⟩ read₂ c₂ ⟨hlength, hes, hspells'⟩ _ c₁ ⟨rfl, -⟩ before opening
      hopening ⟨hcallee, hle, hspells⟩
    refine ⟨⟨hparen, hcallee, hle, hlength, hes⟩, Rank.le_refl _, ?_⟩
    simpa using .call paren hspells hopening hspells'

/-- An operand by its first token. -/
theorem reads_primaryFrom (hg : g.Sound) (t : Token) :
    Reads (primaryFrom g t) fun read e _ ↦ startsPrimary t.kind = true →
      Says .primary (t :: read) e := by
  have hliteral {v : Literal} (h : t.literal? = some v) :
      Reads (return .literal v) fun read e _ ↦ startsPrimary t.kind = true →
        Says .primary (t :: read) e :=
    .pure fun _ _ ↦ ⟨trivial, Rank.le_refl _, .literal h⟩
  unfold primaryFrom
  split
  case h_1 hkind | h_2 hkind | h_3 hkind | h_4 hkind | h_5 hkind =>
    exact hliteral (by unfold Token.literal?; rw [hkind])
  case h_6 hkind =>
    refine .map ((reads_functionFrom hg).imp ?_)
    rintro read f c ⟨hname, hparameters, hf, hspells⟩ -
    exact ⟨⟨hname, hparameters, hf⟩, Rank.le_refl _, .literalFunction hkind hname hspells⟩
  case h_7 hkind =>
    refine .map ((reads_elementsFrom hg _).imp ?_)
    rintro _ es c ⟨hes, ts, close, rfl, hclose, hspells⟩ -
    exact ⟨⟨hkind, hes⟩, Rank.le_refl _, .array t hspells hclose⟩
  case h_8 hkind =>
    refine hg.expression.bind fun inner ↦ reads_expect.bind fun close ↦ .pure ?_
    rintro c _ c₂ ⟨rfl, hclose⟩ read₁ c₁ ⟨⟨hinner, -, hspells⟩, -⟩ -
    exact ⟨hinner, Rank.le_refl _, .grouping hkind hspells hclose⟩
  case h_9 hkind => exact .pure fun _ _ ↦ ⟨hkind, Rank.le_refl _, .name t⟩
  case h_10 hkind => exact .pure fun _ _ ↦ ⟨hkind, Rank.le_refl _, .this t⟩
  case h_11 h₁ h₂ h₃ h₄ h₅ h₆ h₇ h₈ h₉ h₁₀ =>
    refine reads_expect.bind fun dot ↦ reads_expect.bind fun method ↦ .pure ?_
    rintro c _ c₂ ⟨rfl, hmethod⟩ _ c₁ ⟨rfl, hdot⟩ hstarts
    have hkind : t.kind = .superWord := by
      unfold startsPrimary at hstarts
      split at hstarts <;> simp_all
    exact ⟨⟨hkind, hmethod⟩, Rank.le_refl _, .super t method hdot⟩

/-- An operand, with its first token read as well. -/
theorem reads_primary (hg : g.Sound) :
    Reads (primary g) fun read e _ ↦ Says .primary read e := by
  refine reads_acceptIf.bind fun a ↦ ?_
  cases a with
  | none => exact reads_failHere
  | some t =>
    refine (reads_primaryFrom hg t).imp ?_
    rintro read e c h read₁ c₁ (⟨t', ht', rfl, hstarts⟩ | ⟨hnone, -⟩)
    · cases ht'
      exact h hstarts
    · cases hnone

/-- The loop of calls, subscripts and properties, with their operand read before. -/
theorem reads_postfixFrom (hg : g.Sound) (n : Nat) (e : Expr) :
    Reads (postfixFrom g n e) fun read e' c ↦ ∀ before, Says .call before e →
      ReadExpr .call (before ++ read) e' c := by
  induction n generalizing e with
  | zero => exact reads_exhausted
  | succ n ih =>
    refine reads_acceptIf.bind_spans fun a ↦ ?_
    cases a with
    | none =>
      refine .pure ?_
      rintro c read c₁ hspans (⟨t, ht, -⟩ | ⟨-, rfl, hnext⟩) before he
      · cases ht
      · rw [hspans.next?] at hnext
        exact ⟨by simpa using he, stops_call hnext⟩
    | some t =>
      dsimp only
      split
      · next hkind =>
        refine (reads_callFrom hg e).bind fun e₁ ↦ (ih e₁).imp ?_
        rintro read₂ e₂ c h read₁ c₁ hcall _ c₀ - (⟨t', ht', rfl, -⟩ | ⟨hnone, -⟩) before he
        · cases ht'
          simpa using h _ (hcall before t hkind he)
        · cases hnone
      · next hkind =>
        refine reads_expect.bind fun name ↦ (ih _).imp ?_
        rintro read₂ e₂ c h _ c₁ ⟨rfl, hname⟩ _ c₀ - (⟨t', ht', rfl, -⟩ | ⟨hnone, -⟩) before
          ⟨hobject, hle, hspells⟩
        · cases ht'
          have := h _ ⟨⟨hobject, hle, hname⟩, Rank.le_refl _, .get name hspells hkind⟩
          simpa using this
        · cases hnone
      · next hparen hdot =>
        refine hg.assignment.bind fun index ↦ reads_expect.bind fun bracket ↦ (ih _).imp ?_
        rintro read₃ e₂ c h _ c₂ ⟨rfl, hbracket⟩ read₁ c₁ ⟨⟨hindex, hle', hspells'⟩, -⟩ _ c₀ -
          (⟨t', ht', rfl, hstarts⟩ | ⟨hnone, -⟩) before ⟨hobject, hle, hspells⟩
        · cases ht'
          have hkind : t.kind = .leftBracket := by
            unfold startsPostfix at hstarts
            split at hstarts <;> simp_all
          have := h _ ⟨⟨hobject, hle, hbracket, hindex, hle'⟩, Rank.le_refl _,
            .subscript bracket hspells hkind hspells'⟩
          simpa using this
        · cases hnone

/-- An operand with all that is read behind it. -/
theorem reads_postfixExpr (hg : g.Sound) : Reads (postfixExpr g) (ReadExpr .call) := by
  refine (reads_primary hg).bind fun e ↦ (reads_postfixFrom hg g.rounds e).imp ?_
  rintro read₂ e₂ c h read₁ c₁ he
  exact h read₁ (he.mono (by decide))

/-! ### From prefix operators to the comma -/

/-- Operators before an operand. -/
theorem reads_unaryHere (hg : g.Sound) : Reads (unaryHere g) (ReadExpr .unary) := by
  refine reads_acceptIf.bind fun a ↦ ?_
  cases a with
  | none =>
    refine (reads_postfixExpr hg).imp ?_
    rintro read₂ e c ⟨he, hstops⟩ read₁ c₁ (⟨t, ht, -⟩ | ⟨-, rfl, -⟩)
    · cases ht
    · exact ⟨he.mono (by decide), stops_unary hstops⟩
  | some operator =>
    refine hg.unary.bind_spans fun operand ↦ .ite
      (fun hand ↦ .ite (fun hplace ↦ .pure ?_) fun _ ↦ ?_) fun hand ↦ .pure ?_
    · rintro c read₂ c₂ hspans ⟨⟨he, -, hspells⟩, hstops⟩ _ c₁ (⟨t, ht, rfl, -⟩ | ⟨hnone, -⟩)
      · cases ht
        rw [hspans.next?] at hstops
        refine ⟨⟨⟨eq_of_beq hand, he, hplace⟩, Rank.le_refl _, ?_⟩, hstops⟩
        simpa using .reference operator hspells
      · cases hnone
    · refine Reads.bind (P := fun _ _ _ ↦ False) reads_record fun _ ↦ .pure ?_
      intro _ _ _ hfalse
      exact hfalse.elim
    · rintro c read₂ c₂ hspans ⟨⟨he, hle, hspells⟩, hstops⟩ _ c₁
        (⟨t, ht, rfl, hstarts⟩ | ⟨hnone, -⟩)
      · cases ht
        have hkind : operator.kind = .minus ∨ operator.kind = .bang := by
          unfold startsUnary at hstarts
          split at hstarts <;> simp_all
        rw [hspans.next?] at hstops
        refine ⟨⟨⟨hkind, he, hle⟩, Rank.le_refl _, ?_⟩, hstops⟩
        simpa using .unary operator hspells
      · cases hnone

/-- The operators between operands. -/
theorem reads_operation (hg : g.Sound) : Reads (operation g) (ReadExpr .disjunction) :=
  reads_ladder (reads_unaryHere hg)

/-- A conditional expression, or its condition alone. -/
theorem reads_ternaryHere (hg : g.Sound) : Reads (ternaryHere g) (ReadExpr .ternary) := by
  refine (reads_operation hg).bind_spans fun condition ↦ reads_accept.bind_spans fun a ↦ ?_
  cases a with
  | none =>
    refine .pure ?_
    rintro c _ c₂ hspans₂ (⟨t, ht, -⟩ | ⟨-, rfl, hquestion⟩) read₁ c₁ hspans₁ ⟨he, hstops⟩
    · cases ht
    · rw [hspans₂.next?] at hquestion
      rw [hspans₁.next?] at hstops
      simp only [List.append_nil]
      exact ⟨he.mono (by decide), stops_ternary hstops hquestion⟩
  | some question =>
    refine (reads_operation hg).bind fun whenTrue ↦ reads_expect.bind fun colon ↦
      hg.ternary.bind_spans fun whenFalse ↦ .pure ?_
    rintro c read₅ c₅ hspans ⟨⟨hfalse, hle₅, hspells₅⟩, hstops⟩ _ c₄ ⟨rfl, hcolon⟩ read₃ c₃
      ⟨⟨htrue, hle₃, hspells₃⟩, -⟩ _ c₂ - (⟨t, ht, rfl, hquestion⟩ | ⟨hnone, -⟩) read₁ c₁ -
      ⟨⟨hcondition, hle₁, hspells₁⟩, -⟩
    · cases ht
      rw [hspans.next?] at hstops
      refine ⟨⟨⟨hquestion, hcondition, hle₁, htrue, hle₃, hfalse, hle₅⟩, Rank.le_refl _, ?_⟩,
        hstops⟩
      simpa using .ternary question hspells₁ hspells₃ hcolon hspells₅
    · cases hnone

/-- A place, `=` and a value say the assignment of the value to the place. -/
theorem says_assignment? {target value e : Expr} {ts ts' : List Token} {equal : Token}
    (h : assignment? target value = some e) (htarget : target.Stratified)
    (hspells : Spells (.expr target) ts) (hequal : equal.kind = .equal)
    (hvalue : Says .assignment ts' value) : Says .assignment (ts ++ equal :: ts') e := by
  obtain ⟨hvalue, hle, hspells'⟩ := hvalue
  unfold assignment? at h
  split at h
  · obtain rfl := Option.some.inj h
    cases hspells
    exact ⟨⟨htarget, hvalue, hle⟩, Rank.le_refl _, .assign _ hequal hspells'⟩
  · obtain rfl := Option.some.inj h
    obtain ⟨hobject, hcall, hname⟩ := htarget
    cases hspells with
    | get _ hobject' hdot =>
      refine ⟨⟨hobject, hcall, hname, hvalue, hle⟩, Rank.le_refl _, ?_⟩
      simpa using .set _ hobject' hdot hequal hspells'
  · obtain rfl := Option.some.inj h
    obtain ⟨hobject, hcall, hbracket, hindex, hle'⟩ := htarget
    cases hspells with
    | subscript _ hobject' hopening hindex' =>
      refine ⟨⟨hobject, hcall, hbracket, hindex, hle', hvalue, hle⟩, Rank.le_refl _, ?_⟩
      simpa using .setElement _ hobject' hopening hindex' hequal hspells'
  · cases h

/-- An assignment, or its target alone. -/
theorem reads_assignmentHere (hg : g.Sound) : Reads (assignmentHere g) (ReadExpr .assignment) := by
  refine (reads_ternaryHere hg).bind_spans fun target ↦ reads_accept.bind_spans fun a ↦ ?_
  cases a with
  | none =>
    refine .pure ?_
    rintro c _ c₂ hspans₂ (⟨t, ht, -⟩ | ⟨-, rfl, hequal⟩) read₁ c₁ hspans₁ ⟨he, hstops⟩
    · cases ht
    · rw [hspans₂.next?] at hequal
      rw [hspans₁.next?] at hstops
      simp only [List.append_nil]
      exact ⟨he.mono (by decide), stops_assignment hstops hequal⟩
  | some equal =>
    refine hg.assignment.bind_spans fun value ↦ ?_
    cases hassign : assignment? target value with
    | some e =>
      refine .pure ?_
      rintro c read₃ c₃ hspans ⟨hvalue, hstops⟩ _ c₂ -
        (⟨t, ht, rfl, hequal⟩ | ⟨hnone, -⟩) read₁ c₁ -
        ⟨htarget, -⟩
      · cases ht
        rw [hspans.next?] at hstops
        have := says_assignment? hassign htarget.stratified htarget.spells hequal hvalue
        exact ⟨by simpa using this, hstops⟩
      · cases hnone
    | none =>
      refine Reads.bind (P := fun _ _ _ ↦ False) reads_record fun _ ↦ .pure ?_
      intro _ _ _ hfalse
      exact hfalse.elim

/-- **What is read as an expression says it.** -/
theorem reads_expressionHere (hg : g.Sound) : Reads (expressionHere g) (ReadExpr .comma) :=
  reads_chain g.rounds has_comma rfl (reads_assignmentHere hg)

end Grammar

end AliasScript
