import AliasScript.Proofs.Program.Spelling

/-!
# What tokens say

The tokens say an expression if they spell it and it is stratified (`Grammar.Says`). For the levels
of binary operators this is put together operand by operand and taken apart again (`Level.Has`): the
level of a rank holds the operators of the rank and makes exactly the nodes of the rank.
-/

namespace AliasScript

namespace Grammar

/-- The tokens say the expression, and its rank is not looser than the one given. -/
structure Says (rank : Rank) (tokens : List Token) (e : Expr) : Prop where
  stratified : e.Stratified
  le_rank : rank ≤ e.rank
  spells : Spells (.expr e) tokens

/-- What says an expression of a rank says it of every rank below. -/
theorem Says.mono {rank rank' : Rank} {tokens : List Token} {e : Expr} (h : Says rank tokens e)
    (hle : rank' ≤ rank) : Says rank' tokens e :=
  ⟨h.stratified, Rank.le_trans hle h.le_rank, h.spells⟩

/-- An operator between operands continues an expression. -/
theorem continuation?_of_binary {kind : Kind} {rank : Rank} (h : kind.binaryRank? = some rank) :
    kind.continuation? = some rank := by
  cases kind <;> first | exact h | cases h

theorem continuation?_of_logical {kind : Kind} {rank : Rank} (h : kind.logicalRank? = some rank) :
    kind.continuation? = some rank := by
  cases kind <;> first | exact h | cases h

/-- An expression that is not of the rank itself is of the next one. -/
theorem Says.tighten {rank tighter : Rank} {tokens : List Token} {e : Expr}
    (h : Says rank tokens e) (hrank : tighter.height = rank.height + 1) (hne : e.rank ≠ rank) :
    Says tighter tokens e := by
  refine ⟨h.stratified, ?_, h.spells⟩
  have hle := h.le_rank
  have hheight : e.rank.height ≠ rank.height := fun heq ↦ hne (Rank.height_injective heq)
  rw [Rank.le_def] at hle ⊢
  omega

/-! ### Levels of binary operators -/

/-- The level is that of the rank. -/
structure Level.Has (level : Level) (rank : Rank) : Prop where
  /-- The level holds the operators of the rank. -/
  contains_iff : ∀ kind : Kind,
    level.operators.contains kind = true ↔ kind.continuation? = some rank
  /-- Operands that the rank allows make a node of the rank. -/
  join : ∀ {left right : Expr} {operator : Token} {ts ts' : List Token},
    level.operators.contains operator.kind = true → Says rank ts left → Says rank ts' right →
      rank < right.rank → Says rank (ts ++ operator :: ts') (level.node left operator right)
  /-- Every node of the rank is made in this way. -/
  split : ∀ {e : Expr} {ts : List Token}, Says rank ts e → e.rank = rank →
    ∃ left operator right ts' ts'', e = level.node left operator right ∧
      ts = ts' ++ operator :: ts'' ∧ level.operators.contains operator.kind = true ∧
      Says rank ts' left ∧ Says rank ts'' right ∧ rank < right.rank

/-- An expression of the rank of a binary operator is a node of such an operator. -/
theorem Says.split {rank : Rank} {ts : List Token} {e : Expr} (h : Says rank ts e)
    (he : e.rank = rank) (hrank : BinaryRank rank) :
    ∃ left operator right ts' ts'',
      (e = .binary left operator right ∧ operator.kind.binaryRank? = some rank ∨
        e = .logical left operator right ∧ operator.kind.logicalRank? = some rank) ∧
      ts = ts' ++ operator :: ts'' ∧ Says rank ts' left ∧ Says rank ts'' right ∧
      rank < right.rank := by
  obtain ⟨hs, -, hspells⟩ := h
  cases hspells with
  | binary operator hleft hright =>
    obtain ⟨rank', hop, hl, hle, hr, hlt⟩ := hs
    obtain rfl : rank' = rank := by simpa [Expr.rank, hop] using he
    exact ⟨_, operator, _, _, _, .inl ⟨rfl, hop⟩, rfl, ⟨hl, hle, hleft⟩,
      ⟨hr, Rank.le_of_lt hlt, hright⟩, hlt⟩
  | logical operator hleft hright =>
    obtain ⟨rank', hop, hl, hle, hr, hlt⟩ := hs
    obtain rfl : rank' = rank := by simpa [Expr.rank, hop] using he
    exact ⟨_, operator, _, _, _, .inr ⟨rfl, hop⟩, rfl, ⟨hl, hle, hleft⟩,
      ⟨hr, Rank.le_of_lt hlt, hright⟩, hlt⟩
  | _ =>
    simp only [Expr.rank] at he
    subst he
    exact absurd hrank (by decide)

/-- A level of operators with two operands, from what its list contains. -/
theorem Level.Has.of_binary {operators : List Kind} {rank : Rank} (hrank : BinaryRank rank)
    (hcontains : ∀ kind : Kind, operators.contains kind = true ↔ kind.continuation? = some rank)
    (hbinary : ∀ kind : Kind, kind.continuation? = some rank → kind.binaryRank? = some rank)
    (hlogical : ∀ kind : Kind, kind.logicalRank? ≠ some rank) :
    Level.Has ⟨operators, .binary⟩ rank where
  contains_iff := hcontains
  join hop hleft hright hlt := by
    have hkind := hbinary _ ((hcontains _).1 hop)
    refine ⟨⟨rank, hkind, hleft.stratified, hleft.le_rank, hright.stratified, hlt⟩, ?_,
      .binary _ hleft.spells hright.spells⟩
    simp [Expr.rank, hkind, Rank.le_refl]
  split h he := by
    obtain ⟨left, operator, right, ts', ts'', ⟨rfl, hop⟩ | ⟨-, hop⟩, hts, hleft, hright, hlt⟩ :=
      h.split he hrank
    · exact ⟨left, operator, right, ts', ts'', rfl, hts,
        (hcontains _).2 (continuation?_of_binary hop), hleft, hright, hlt⟩
    · exact absurd hop (hlogical _)

/-- A level of logical operators likewise. -/
theorem Level.Has.of_logical {operators : List Kind} {rank : Rank} (hrank : BinaryRank rank)
    (hcontains : ∀ kind : Kind, operators.contains kind = true ↔ kind.continuation? = some rank)
    (hlogical : ∀ kind : Kind, kind.continuation? = some rank → kind.logicalRank? = some rank)
    (hbinary : ∀ kind : Kind, kind.binaryRank? ≠ some rank) :
    Level.Has ⟨operators, .logical⟩ rank where
  contains_iff := hcontains
  join hop hleft hright hlt := by
    have hkind := hlogical _ ((hcontains _).1 hop)
    refine ⟨⟨rank, hkind, hleft.stratified, hleft.le_rank, hright.stratified, hlt⟩, ?_,
      .logical _ hleft.spells hright.spells⟩
    simp [Expr.rank, hkind, Rank.le_refl]
  split h he := by
    obtain ⟨left, operator, right, ts', ts'', ⟨-, hop⟩ | ⟨rfl, hop⟩, hts, hleft, hright, hlt⟩ :=
      h.split he hrank
    · exact absurd hop (hbinary _)
    · exact ⟨left, operator, right, ts', ts'', rfl, hts,
        (hcontains _).2 (continuation?_of_logical hop), hleft, hright, hlt⟩

/-! The rows of the table. -/

/-- The comma makes the loosest level. -/
theorem has_comma : commaLevel.Has .comma :=
  .of_binary (by decide) (by intro kind; cases kind <;> decide)
    (by intro kind; cases kind <;> decide) (by intro kind; cases kind <;> decide)

/-- One word makes disjunctions. -/
theorem has_disjunction : Level.Has ⟨[.orWord], .logical⟩ .disjunction :=
  .of_logical (by decide) (by intro kind; cases kind <;> decide)
    (by intro kind; cases kind <;> decide) (by intro kind; cases kind <;> decide)

/-- One word makes conjunctions. -/
theorem has_conjunction : Level.Has ⟨[.andWord], .logical⟩ .conjunction :=
  .of_logical (by decide) (by intro kind; cases kind <;> decide)
    (by intro kind; cases kind <;> decide) (by intro kind; cases kind <;> decide)

/-- Equality and its negation are of one level. -/
theorem has_equality : Level.Has ⟨[.bangEqual, .equalEqual], .binary⟩ .equality :=
  .of_binary (by decide) (by intro kind; cases kind <;> decide)
    (by intro kind; cases kind <;> decide) (by intro kind; cases kind <;> decide)

theorem has_comparison :
    Level.Has ⟨[.greater, .greaterEqual, .less, .lessEqual], .binary⟩ .comparison :=
  .of_binary (by decide) (by intro kind; cases kind <;> decide)
    (by intro kind; cases kind <;> decide) (by intro kind; cases kind <;> decide)

/-- Sums and differences are of one level. -/
theorem has_additive : Level.Has ⟨[.plus, .minus], .binary⟩ .additive :=
  .of_binary (by decide) (by intro kind; cases kind <;> decide)
    (by intro kind; cases kind <;> decide) (by intro kind; cases kind <;> decide)

/-- Products, quotients and remainders are of one level. -/
theorem has_multiplicative : Level.Has ⟨[.slash, .star, .percent], .binary⟩ .multiplicative :=
  .of_binary (by decide) (by intro kind; cases kind <;> decide)
    (by intro kind; cases kind <;> decide) (by intro kind; cases kind <;> decide)

/-- If the next token is no operator of the level, the level stops there. -/
theorem Level.Has.stops {level : Level} {rank tighter : Rank} (h : level.Has rank)
    (hrank : tighter.height = rank.height + 1) {next : Option Kind} (hstops : Stops tighter next)
    (hnext : ∀ kind ∈ next, level.operators.contains kind = false) : Stops rank next := by
  intro kind hkind r hr
  have hlt := hstops kind hkind r hr
  have hne : r ≠ rank := by
    rintro rfl
    have := (h.contains_iff kind).2 hr
    rw [hnext kind hkind] at this
    cases this
  have hheight : r.height ≠ rank.height := fun heq ↦ hne (Rank.height_injective heq)
  rw [Rank.lt_def] at hlt ⊢
  omega

/-! ### The tokens that go on at a rank -/

/-- Calls, subscripts and properties go on at their opening tokens only. -/
theorem stops_call {next : Option Kind} (h : ∀ kind ∈ next, startsPostfix kind = false) :
    Stops .call next := by
  intro kind hkind r hr
  have hnot := h kind hkind
  cases kind <;> cases hr <;> first | decide | cases hnot

theorem stops_unary {next : Option Kind} (h : Stops .call next) : Stops .unary next := by
  intro kind hkind r hr
  have hlt := h kind hkind r hr
  cases kind <;> cases hr <;> first | decide | exact absurd hlt (by decide)

/-- A conditional expression goes on at its question mark only. -/
theorem stops_ternary {next : Option Kind} (h : Stops .disjunction next)
    (hquestion : next ≠ some .question) : Stops .ternary next := by
  intro kind hkind r hr
  have hlt := h kind hkind r hr
  cases kind <;> cases hr <;>
    first | decide | exact absurd hlt (by decide) | exact absurd hkind hquestion

/-- An assignment goes on at its sign only. -/
theorem stops_assignment {next : Option Kind} (h : Stops .ternary next)
    (hequal : next ≠ some .equal) : Stops .assignment next := by
  intro kind hkind r hr
  have hlt := h kind hkind r hr
  cases kind <;> cases hr <;>
    first | decide | exact absurd hlt (by decide) | exact absurd hkind hequal

end Grammar

end AliasScript
