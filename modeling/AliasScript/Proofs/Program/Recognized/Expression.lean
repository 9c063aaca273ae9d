import AliasScript.Proofs.Program.Leading
import AliasScript.Proofs.Program.Says

/-!
# The expressions that the grammar recognizes

Every expression that some tokens say is what its parser gives for them, wherever nothing behind the
tokens goes on with it. This is shown parser by parser, for a grammar whose parsers for nested parts
recognize all that fewer than `n` tokens say (`Grammar.Complete`); the parsers one level up then
recognize what `n` tokens say.

The loops for operators and for what follows an operand are left recursions turned around. A loop is
followed along the left operands of the tree: behind the tokens of a left operand, the parser has
come to the loop that holds this operand.
-/

namespace AliasScript

namespace Grammar

open Parse

/-! ### What the parsers recognize -/

/-- The parser recognizes the expressions of the rank that fewer than `n` tokens say. -/
def Recognizes (p : Parse Expr) (rank : Rank) (n : Nat) : Prop :=
  ∀ ⦃last : Option Token⦄ ⦃r : List Token⦄ ⦃e : Expr⦄ ⦃later : List Token⦄, Says rank r e →
    r.length < n → Stops rank (nextKind later none) → Leads last p r (pure e) later

/-- The parsers for nested parts recognize all that fewer than `n` tokens say. -/
structure Complete (g : Grammar) (n : Nat) : Prop where
  le_rounds : n ≤ g.rounds
  unary : Recognizes g.unary .unary n
  ternary : Recognizes g.ternary .ternary n
  assignment : Recognizes g.assignment .assignment n
  expression : Recognizes g.expression .comma n
  statement : ∀ {last : Option Token} {r : List Token} {s : Stmt} {later : List Token},
    s.Stratified → s.isDeclaration = false → Spells (.stmt s (nextKind later none)) r →
      r.length < n → Leads last g.statement r (pure s) later
  block : ∀ {last : Option Token} {r : List Token} {close : Token} {body : List Stmt}
    {later : List Token}, StmtsStratified body → Spells (.stmts body (some .rightBrace)) r →
      close.kind = .rightBrace → r.length + 1 < n →
      Leads last g.block (r ++ [close]) (pure body) later

/-- An expression is said by at least one token. -/
theorem Says.length_pos {rank : Rank} {r : List Token} {e : Expr} (h : Says rank r e) :
    0 < r.length :=
  List.length_pos_iff.2 (h.spells.begins h.stratified).ne_nil

/-! ### Binary operators -/

section Chain

variable {level : Level} {rank tighter : Rank} {operand : Parse Expr} {n : Nat}

/-- Behind the tokens of an expression, a chain has come to the loop with this expression as the
left operand. -/
theorem leads_chain (rounds : Nat) (hlevel : level.Has rank)
    (hrank : tighter.height = rank.height + 1)
    (hoperand : Recognizes operand tighter n) (last : Option Token) {r : List Token} {e : Expr}
    {later : List Token} (he : Says rank r e) (hn : r.length < n) (hrounds : r.length ≤ rounds)
    (hstops : Stops tighter (nextKind later none)) :
    ∃ m, rounds < m + r.length ∧
      Leads last (chain rounds level operand) r (chainFrom level operand m e) later := by
  induction hlength : r.length using Nat.strongRecOn generalizing r e later with
  | ind length ih =>
    subst hlength
    by_cases heq : e.rank = rank
    · obtain ⟨left, operator, right, r₁, r₂, rfl, rfl, hop, hleft, hright, hlt⟩ :=
        hlevel.split he heq
      have hstops₁ : Stops tighter (nextKind (operator :: r₂ ++ later) none) := by
        refine stops_some fun kind hkind ↦ ?_
        rw [(hlevel.contains_iff _).1 hop] at hkind
        cases hkind
        rw [Rank.lt_def]
        omega
      simp only [List.length_append, List.length_cons] at hn hrounds ih ⊢
      obtain ⟨m, hm, hleads⟩ := ih r₁.length (by omega) hleft (by omega) (by omega) hstops₁ rfl
      obtain ⟨m, rfl⟩ : ∃ m', m = m' + 1 := ⟨m - 1, by omega⟩
      have hright' : Says tighter r₂ right := by
        refine ⟨hright.stratified, ?_, hright.spells⟩
        rw [Rank.le_def]
        rw [Rank.lt_def] at hlt
        omega
      refine ⟨m, by omega, hleads.trans ?_⟩
      exact (leads_acceptIf hop).bind (hoperand hright' (by omega) hstops).bind_pure
    · have hpos := he.length_pos
      exact ⟨rounds, by omega, (hoperand (he.tighten hrank heq) hn hstops).bind_pure⟩

/-- A chain of operators recognizes the rank of its level, if its operand recognizes the next
tighter one. -/
theorem recognizes_chain {rounds : Nat} (hlevel : level.Has rank)
    (hrank : tighter.height = rank.height + 1)
    (hoperand : Recognizes operand tighter n) (hn : n ≤ rounds + 1) :
    Recognizes (chain rounds level operand) rank n := by
  intro last r e later he hlt hstops
  have hle : rank ≤ tighter := by
    rw [Rank.le_def]
    omega
  obtain ⟨m, hm, hleads⟩ := leads_chain rounds hlevel hrank hoperand last he hlt (by omega)
    (hstops.mono hle)
  obtain ⟨m, rfl⟩ : ∃ m', m = m' + 1 := ⟨m - 1, by omega⟩
  have hnone : ∀ kind ∈ nextKind later none, level.operators.contains kind = false := by
    intro kind hkind
    rw [← Bool.not_eq_true, hlevel.contains_iff]
    intro hcontinues
    have := hstops kind hkind rank hcontinues
    rw [Rank.lt_def] at this
    omega
  exact hleads.trans_nil (leads_acceptIf_none hnone).bind_pure

end Chain

/-! ### Primaries and calls -/

variable {g : Grammar} {n : Nat} {last : Option Token} {later : List Token}

/-- Parameters, each with a comma behind it but for the last one. -/
theorem leads_parametersFrom {names r : List Token} {m count : Nat} (h : SpellsNames names r)
    (hne : names ≠ []) (hkinds : ∀ t ∈ names, t.kind = .identifier)
    (hcount : count + names.length ≤ maxParameters) (hm : r.length ≤ m)
    (hnext : nextKind later none ≠ some .comma) :
    Leads last (parametersFrom m count) r (pure names) later := by
  induction h generalizing m count last with
  | none => exact absurd rfl hne
  | last t =>
    obtain ⟨m, rfl⟩ : ∃ m', m = m' + 1 := ⟨m - 1, by simp only [List.length_cons] at hm; omega⟩
    simp only [List.length_cons] at hcount
    unfold parametersFrom
    refine leads_recordIf_not (by omega) ?_
    exact (leads_expect (hkinds t List.mem_cons_self)).bind_then (leads_accept_none hnext).bind_pure
  | cons t comma hcomma hne' _ ih =>
    simp only [List.length_cons] at hm hcount
    obtain ⟨m, rfl⟩ : ∃ m', m = m' + 1 := ⟨m - 1, by omega⟩
    unfold parametersFrom
    refine leads_recordIf_not (by omega) ?_
    refine (leads_expect (hkinds t List.mem_cons_self)).bind ((leads_accept hcomma).bind ?_)
    exact (ih hne' (fun t ht ↦ hkinds t (List.mem_cons_of_mem _ ht)) (by omega)
      (by omega)).bind_pure

/-- A list of parameters in its parentheses. -/
theorem leads_parameterList {opening : GrammarCause} {names r : List Token} {paren paren' : Token}
    (hnames : ParametersStratified names) (hparen : paren.kind = .leftParen)
    (h : SpellsNames names r) (hparen' : paren'.kind = .rightParen) (hr : r.length ≤ g.rounds) :
    Leads last (parameterList g opening) (paren :: (r ++ [paren'])) (pure names) later := by
  unfold parameterList
  refine (leads_expect hparen).bind ?_
  by_cases hne : names = []
  · subst hne
    cases h
    refine (leads_check (by simp [hparen'])).bind_look (.ite_true ?_)
    exact (Leads.refl _).bind_look (leads_expect hparen').bind_pure
  · have hfirst : nextKind (r ++ [paren'] ++ later) none ≠ some .rightParen := by
      cases h with
      | none => exact absurd rfl hne
      | last t => simp [hnames.2 t List.mem_cons_self]
      | cons t => simp [hnames.2 t List.mem_cons_self]
    refine (leads_check_not hfirst).bind_look (.ite_false ?_)
    refine (leads_parametersFrom h hne hnames.2 ?_ hr (by simp [hparen'])).bind
      (leads_expect hparen').bind_pure
    simpa using hnames.1

/-- The body of a function in its braces. -/
theorem leads_functionBody (hg : g.Complete n) {opening : GrammarCause} {body : List Stmt}
    {r : List Token} {brace close : Token} (hbody : StmtsStratified body)
    (hbrace : brace.kind = .leftBrace) (h : Spells (.stmts body (some .rightBrace)) r)
    (hclose : close.kind = .rightBrace) (hr : r.length + 1 < n) :
    Leads last (functionBody g opening) (brace :: (r ++ [close])) (pure body) later :=
  (leads_expect hbrace).bind (hg.block hbody h hclose hr)

/-- A function with its parameters. -/
theorem leads_functionFrom (hg : g.Complete n) {opening : GrammarCause} {f : Function}
    {r : List Token} (hf : f.Stratified) (hparameters : f.parameters.isSome)
    (h : Spells (.function f) r) (hr : r.length < n) :
    Leads last (functionFrom g f.name opening) r (pure f) later := by
  have hrounds := hg.le_rounds
  cases h with
  | getter => cases hparameters
  | @function _ names body r₁ r₂ paren paren' brace close hparen hnames hparen' hbrace hbody
      hclose =>
    simp only [List.length_cons, List.length_append] at hr
    rw [show paren :: (r₁ ++ paren' :: brace :: (r₂ ++ [close])) =
      paren :: (r₁ ++ [paren']) ++ brace :: (r₂ ++ [close]) by simp]
    exact (leads_parameterList (hf.1 _ rfl) hparen hnames hparen' (by omega)).bind
      (leads_functionBody hg hf.2 hbrace hbody hclose (by omega)).bind_pure

/-- A method, or a getter if no parameters stand there. -/
theorem leads_methodFrom (hg : g.Complete n) {f : Function} {name : Token} {r : List Token}
    (hname : f.name = some name) (hf : f.Stratified) (h : Spells (.function f) r)
    (hr : r.length < n) : Leads last (methodFrom g name) r (pure f) later := by
  have hrounds := hg.le_rounds
  unfold methodFrom
  cases h with
  | @getter _ body r₁ brace close hbrace hbody hclose =>
    cases hname
    simp only [List.length_cons, List.length_append] at hr
    refine (leads_check_not (by simp [hbrace])).bind_look (.ite_false ?_)
    refine (Leads.refl _).bind_look ?_
    exact (leads_functionBody hg hf.2 hbrace hbody hclose (by omega)).bind_pure
  | @function _ names body r₁ r₂ paren paren' brace close hparen hnames hparen' hbrace hbody
      hclose =>
    cases hname
    simp only [List.length_cons, List.length_append] at hr
    refine (leads_check (by simp [hparen])).bind_look (.ite_true ?_)
    rw [show paren :: (r₁ ++ paren' :: brace :: (r₂ ++ [close])) =
      paren :: (r₁ ++ [paren']) ++ brace :: (r₂ ++ [close]) by simp]
    exact ((leads_parameterList (hf.1 _ rfl) hparen hnames hparen' (by omega)).map some).bind
      (leads_functionBody hg hf.2 hbrace hbody hclose (by omega)).bind_pure

/-- The elements of an array, up to its closing bracket. -/
theorem leads_elementsFrom (hg : g.Complete n) {es : List Expr} {r : List Token} {close : Token}
    {m : Nat} (hes : ExprsStratified es) (h : Spells (.elements es) r)
    (hclose : close.kind = .rightBracket) (hr : r.length < n) (hm : r.length < m) :
    Leads last (elementsFrom g m) (r ++ [close]) (pure es) later := by
  induction es generalizing m r last with
  | nil =>
    cases h
    obtain ⟨m, rfl⟩ : ∃ m', m = m' + 1 := ⟨m - 1, by omega⟩
    exact (leads_accept hclose).bind_pure
  | cons e es ih =>
    obtain ⟨m, rfl⟩ : ∃ m', m = m' + 1 := ⟨m - 1, by omega⟩
    unfold elementsFrom
    cases h with
    | lastElement he =>
      have hbegins := he.begins hes.1
      refine (leads_accept_none ?_).bind_look ((leads_atEnd_not ?_).bind_look (.ite_false ?_))
      · simpa using hbegins.nextKind_ne rfl rfl _
      · simpa using hbegins.nextKind_ne_none _
      refine (hg.assignment ⟨hes.1, hes.2.1, he⟩ hr ?_).bind ?_
      · exact stops_of_kind hclose (by decide) _
      have hpos := List.length_pos_iff.2 hbegins.ne_nil
      refine (leads_check (by simp [hclose])).bind_look (.ite_true ?_)
      exact (ih (r := []) hes.2.2 .noElements (by simp; omega) (by simp; omega)).bind_pure
    | @element _ _ r₁ r₂ comma he hcomma hrest =>
      have hbegins := he.begins hes.1
      simp only [List.length_append, List.length_cons] at hr hm
      rw [List.append_assoc]
      refine (leads_accept_none ?_).bind_look ((leads_atEnd_not ?_).bind_look (.ite_false ?_))
      · simpa using hbegins.nextKind_ne rfl rfl _
      · simpa using hbegins.nextKind_ne_none _
      refine (hg.assignment ⟨hes.1, hes.2.1, he⟩ (by omega) ?_).bind ?_
      · exact stops_of_kind hcomma (by decide) _
      refine (leads_check_not (by simp [hcomma])).bind_look (.ite_false ?_)
      exact (leads_expect hcomma).bind (ih hes.2.2 hrest (by omega) (by omega)).bind_pure

/-- Arguments, each with a comma behind it but for the last one. -/
theorem leads_argumentsFrom (hg : g.Complete n) {es : List Expr} {r : List Token} {m count : Nat}
    (hne : es ≠ []) (hes : ExprsStratified es) (h : Spells (.arguments es) r)
    (hcount : count + es.length ≤ maxArguments) (hr : r.length < n) (hm : r.length ≤ m)
    (hnext : nextKind later none = some .rightParen) :
    Leads last (argumentsFrom g m count) r (pure es) later := by
  induction es generalizing m count r last with
  | nil => exact absurd rfl hne
  | cons e es ih =>
    simp only [List.length_cons] at hcount
    cases h with
    | lastArgument he =>
      have hpos := List.length_pos_iff.2 (he.begins hes.1).ne_nil
      obtain ⟨m, rfl⟩ : ∃ m', m = m' + 1 := ⟨m - 1, by omega⟩
      unfold argumentsFrom
      refine leads_recordIf_not (by omega) ?_
      refine (hg.assignment ⟨hes.1, hes.2.1, he⟩ hr ?_).bind_then
        (leads_accept_none (by simp [hnext])).bind_pure
      rw [hnext]
      exact stops_some (by decide)
    | @argument _ _ r₁ r₂ comma he hcomma hne' hrest =>
      simp only [List.length_append, List.length_cons] at hr hm
      obtain ⟨m, rfl⟩ : ∃ m', m = m' + 1 := ⟨m - 1, by omega⟩
      unfold argumentsFrom
      refine leads_recordIf_not (by omega) ?_
      refine (hg.assignment ⟨hes.1, hes.2.1, he⟩ (by omega) ?_).bind ((leads_accept hcomma).bind ?_)
      · exact stops_of_kind hcomma (by decide) _
      exact (ih hne' hes.2.2 hrest (by omega) (by omega) (by omega)).bind_pure

/-- The arguments of a call, up to its closing parenthesis. -/
theorem leads_callFrom (hg : g.Complete n) {callee : Expr} {es : List Expr} {r : List Token}
    {paren : Token} (hes : ExprsStratified es) (h : Spells (.arguments es) r)
    (hlength : es.length ≤ maxArguments) (hparen : paren.kind = .rightParen) (hr : r.length < n) :
    Leads last (callFrom g callee) (r ++ [paren]) (pure (.call callee paren es)) later := by
  have hrounds := hg.le_rounds
  unfold callFrom
  by_cases hne : es = []
  · subst hne
    cases h
    refine (leads_check (by simp [hparen])).bind_look (.ite_true ?_)
    exact (Leads.refl _).bind_look (leads_expect hparen).bind_pure
  · have hfirst : nextKind (r ++ [paren] ++ later) none ≠ some .rightParen := by
      simp only [nextKind_append]
      cases h with
      | noArguments => exact absurd rfl hne
      | lastArgument he => exact (he.begins hes.1).nextKind_ne rfl rfl _
      | argument he => simpa using (he.begins hes.1).nextKind_ne rfl rfl _
    refine (leads_check_not hfirst).bind_look (.ite_false ?_)
    exact (leads_argumentsFrom hg hne hes h (by omega) hr (by omega) (by simp [hparen])).bind
      (leads_expect hparen).bind_pure

/-- The token of a literal is enough for an operand. -/
theorem primaryFrom_of_literal? {t : Token} {v : Literal} (h : t.literal? = some v) :
    primaryFrom g t = pure (.literal v) := by
  unfold Token.literal? at h
  unfold primaryFrom
  split at h <;> simp_all

/-- **Operands lead to what they say.** -/
theorem leads_primary (hg : g.Complete n) {r : List Token} {e : Expr} (he : Says .primary r e)
    (hr : r.length ≤ n) : Leads last (primary g) r (pure e) later := by
  obtain ⟨hs, hle, hspells⟩ := he
  have hrounds := hg.le_rounds
  -- Behind the first token, the parser for its kind takes over.
  have hfirst {t : Token} {r : List Token} (ht : startsPrimary t.kind = true)
      (h : Leads (some t) (primaryFrom g t) r (pure e) later) :
      Leads last (primary g) (t :: r) (pure e) later :=
    (leads_acceptIf ht).bind h
  cases hspells with
  | @literal v t hv =>
    refine hfirst (startsPrimary_of_literal? hv) ?_
    rw [primaryFrom_of_literal? hv]
    exact .refl _
  | name name =>
    have hkind : name.kind = .identifier := hs
    refine hfirst (by rw [hkind]; rfl) ?_
    simp only [primaryFrom, hkind]
    exact .refl _
  | this keyword =>
    have hkind : keyword.kind = .thisWord := hs
    refine hfirst (by rw [hkind]; rfl) ?_
    simp only [primaryFrom, hkind]
    exact .refl _
  | super keyword method hdot =>
    refine hfirst (by rw [hs.1]; rfl) ?_
    simp only [primaryFrom, hs.1]
    exact (leads_expect hdot).bind (leads_expect hs.2).bind_pure
  | array bracket helements hclose =>
    simp only [List.length_cons, List.length_append] at hr
    refine hfirst (by rw [hs.1]; rfl) ?_
    simp only [primaryFrom, hs.1]
    exact (leads_elementsFrom hg hs.2 helements hclose (by omega) (by omega)).map _
  | @grouping inner r' opening close hopening hinner hclose =>
    simp only [List.length_cons, List.length_append] at hr
    refine hfirst (by rw [hopening]; rfl) ?_
    simp only [primaryFrom, hopening]
    have hsays : Says .comma r' inner := ⟨hs, Nat.zero_le _, hinner⟩
    refine (hg.expression hsays (by omega) ?_).bind (leads_expect hclose).bind_pure
    exact stops_of_kind hclose (by decide) _
  | @literalFunction f r' keyword hkeyword hname hf =>
    simp only [List.length_cons] at hr
    refine hfirst (by rw [hkeyword]; rfl) ?_
    simp only [primaryFrom, hkeyword]
    rw [← hname]
    exact (leads_functionFrom hg hs.2.2 hs.2.1 hf (by omega)).map _
  | binary => exact absurd hle ((binaryRank_binary hs).not_le (by decide))
  | logical =>
    exact absurd hle ((binaryRank_logical hs).not_le (by decide))
  | unary | reference | ternary | assign | set | setElement | call | get | subscript =>
    simp [Rank.le_def, Expr.rank, Rank.height] at hle

/-- Behind the tokens of an expression, the loop for what follows an operand holds this
expression. -/
theorem leads_postfixExpr (hg : g.Complete n) (last : Option Token) (later : List Token)
    {r : List Token} {e : Expr} (he : Says .call r e) (hr : r.length ≤ n) :
    ∃ m, g.rounds < m + r.length ∧ Leads last (postfixExpr g) r (postfixFrom g m e) later := by
  have hrounds := hg.le_rounds
  induction hlength : r.length using Nat.strongRecOn generalizing r e later with
  | ind length ih =>
    subst hlength
    have hpos := he.length_pos
    obtain ⟨hs, hle, hspells⟩ := he
    by_cases hprimary : e.rank = .primary
    · have hle' : .primary ≤ e.rank := hprimary ▸ Rank.le_refl _
      exact ⟨_, by omega, (leads_primary hg ⟨hs, hle', hspells⟩ hr).bind_pure⟩
    cases hspells with
    | @call callee es r₁ r₂ opening paren hcallee hopening hes =>
      obtain ⟨hparen, hs₁, hle₁, hlength, hs₂⟩ := hs
      simp only [List.length_append, List.length_cons] at hr ih ⊢
      obtain ⟨m, hm, hleads⟩ := ih r₁.length (by omega) _ ⟨hs₁, hle₁, hcallee⟩ (by omega) rfl
      obtain ⟨m, rfl⟩ : ∃ m', m = m' + 1 := ⟨m - 1, by omega⟩
      refine ⟨m, by omega, hleads.trans ((leads_acceptIf (by rw [hopening]; rfl)).bind ?_)⟩
      simp only [hopening]
      exact (leads_callFrom hg hs₂ hes hlength hparen (by omega)).bind_pure
    | @get object r₁ dot name hobject hdot =>
      obtain ⟨hs₁, hle₁, hname⟩ := hs
      simp only [List.length_append, List.length_cons] at hr ih ⊢
      obtain ⟨m, hm, hleads⟩ := ih r₁.length (by omega) _ ⟨hs₁, hle₁, hobject⟩ (by omega) rfl
      obtain ⟨m, rfl⟩ : ∃ m', m = m' + 1 := ⟨m - 1, by omega⟩
      refine ⟨m, by omega, hleads.trans ((leads_acceptIf (by rw [hdot]; rfl)).bind ?_)⟩
      simp only [hdot]
      exact (leads_expect hname).bind_pure
    | @subscript object index r₁ r₂ opening bracket hobject hopening hindex =>
      obtain ⟨hs₁, hle₁, hbracket, hs₂, hle₂⟩ := hs
      simp only [List.length_append, List.length_cons] at hr ih ⊢
      obtain ⟨m, hm, hleads⟩ := ih r₁.length (by omega) _ ⟨hs₁, hle₁, hobject⟩ (by omega) rfl
      obtain ⟨m, rfl⟩ : ∃ m', m = m' + 1 := ⟨m - 1, by omega⟩
      refine ⟨m, by omega, hleads.trans ((leads_acceptIf (by rw [hopening]; rfl)).bind ?_)⟩
      simp only [hopening]
      refine (hg.assignment ⟨hs₂, hle₂, hindex⟩ (by omega) ?_).bind
        (leads_expect hbracket).bind_pure
      exact stops_of_kind hbracket (by decide) _
    | binary =>
      exact absurd hle ((binaryRank_binary hs).not_le (by decide))
    | logical =>
      exact absurd hle ((binaryRank_logical hs).not_le (by decide))
    | unary | reference | ternary | assign | set | setElement =>
      simp [Rank.le_def, Expr.rank, Rank.height] at hle
    | literal | name | this | super | array | grouping | literalFunction =>
      exact absurd rfl hprimary

/-- An operand with its calls, subscripts and properties. -/
theorem recognizes_postfixExpr (hg : g.Complete n) : Recognizes (postfixExpr g) .call (n + 1) := by
  intro last r e later he hr hstops
  have hrounds := hg.le_rounds
  obtain ⟨m, hm, hleads⟩ := leads_postfixExpr hg last later he (by omega)
  obtain ⟨m, rfl⟩ : ∃ m', m = m' + 1 := ⟨m - 1, by omega⟩
  have hnone : ∀ kind ∈ nextKind later none, startsPostfix kind = false := by
    intro kind hkind
    have := hstops kind hkind
    cases kind <;> first | rfl | exact absurd (this _ rfl) (by decide)
  exact hleads.trans_nil (leads_acceptIf_none hnone).bind_pure

/-! ### From prefix operators to the comma -/

/-- Operators before an operand. -/
theorem recognizes_unaryHere (hg : g.Complete n) : Recognizes (unaryHere g) .unary (n + 1) := by
  intro last r e later he hr hstops
  by_cases heq : e.rank = .unary
  · obtain ⟨hs, hle, hspells⟩ := he
    cases hspells with
    | @unary operand r' operator hoperand =>
      obtain ⟨hkind, hs, hle⟩ := hs
      simp only [List.length_cons] at hr
      have hstarts : startsUnary operator.kind = true := by
        rcases hkind with h | h <;> rw [h] <;> rfl
      have hnot : (operator.kind == .ampersand) = false := by
        rcases hkind with h | h <;> rw [h] <;> rfl
      refine (leads_acceptIf hstarts).bind
        ((hg.unary ⟨hs, hle, hoperand⟩ (by omega) hstops).bind_then ?_)
      rw [hnot]
      exact .ite_false (.refl _)
    | @reference target r' operator htarget =>
      obtain ⟨hkind, hs, hplace⟩ := hs
      simp only [List.length_cons] at hr
      have hle : .unary ≤ target.rank :=
        Rank.le_trans (by decide) (call_le_rank_of_isPlace hplace)
      refine (leads_acceptIf (by rw [hkind]; rfl)).bind
        ((hg.unary ⟨hs, hle, htarget⟩ (by omega) hstops).bind_then ?_)
      rw [hkind, hplace]
      exact .ite_true (.ite_true (.refl _))
    | binary => exact absurd hle ((binaryRank_binary hs).not_le (by decide))
    | logical => exact absurd hle ((binaryRank_logical hs).not_le (by decide))
    | _ => cases heq
  · have he' : Says .call r e := he.tighten rfl heq
    have hnone : ∀ kind ∈ nextKind (r ++ later) none, startsUnary kind = false := by
      obtain ⟨t, rest, rfl, ht | ht⟩ := he'.spells.first he'.stratified
      · rintro kind ⟨⟩
        revert ht
        cases t.kind <;> first | exact fun _ ↦ rfl | exact fun h ↦ nomatch h
      · exact absurd he'.le_rank (Rank.not_le_of_lt ht.2)
    exact (leads_acceptIf_none hnone).bind_look
      (recognizes_postfixExpr hg he' hr (hstops.mono (by decide)))

/-- The operators between operands, on all of their levels. -/
theorem recognizes_operation (hg : g.Complete n) :
    Recognizes (operation g) .disjunction (n + 1) := by
  have hn : n + 1 ≤ g.rounds + 1 := Nat.succ_le_succ hg.le_rounds
  have multiplicative := recognizes_chain has_multiplicative rfl (recognizes_unaryHere hg) hn
  have additive := recognizes_chain has_additive rfl multiplicative hn
  have comparison := recognizes_chain has_comparison rfl additive hn
  have equality := recognizes_chain has_equality rfl comparison hn
  have conjunction := recognizes_chain has_conjunction rfl equality hn
  exact recognizes_chain has_disjunction rfl conjunction hn

/-- Conditional expressions. -/
theorem recognizes_ternaryHere (hg : g.Complete n) :
    Recognizes (ternaryHere g) .ternary (n + 1) := by
  intro last r e later he hr hstops
  by_cases heq : e.rank = .ternary
  · obtain ⟨hs, hle, hspells⟩ := he
    cases hspells with
    | @ternary condition whenTrue whenFalse r₁ r₂ r₃ colon question h₁ h₂ hcolon h₃ =>
      obtain ⟨hquestion, hs₁, hle₁, hs₂, hle₂, hs₃, hle₃⟩ := hs
      simp only [List.length_append, List.length_cons] at hr
      refine (recognizes_operation hg ⟨hs₁, hle₁, h₁⟩ (by omega) ?_).bind
        ((leads_accept hquestion).bind ?_)
      · exact stops_of_kind hquestion (by decide) _
      refine (recognizes_operation hg ⟨hs₂, hle₂, h₂⟩ (by omega) ?_).bind
        ((leads_expect hcolon).bind ?_)
      · exact stops_of_kind hcolon (by decide) _
      exact (hg.ternary ⟨hs₃, hle₃, h₃⟩ (by omega) hstops).bind_pure
    | binary => exact absurd heq (binaryRank_binary hs).2.1
    | logical => exact absurd heq (binaryRank_logical hs).2.1
    | _ => cases heq
  · have hquestion : nextKind later none ≠ some .question := by
      intro h
      exact absurd (hstops _ h _ rfl) (by decide)
    exact (recognizes_operation hg (he.tighten rfl heq) hr (hstops.mono (by decide))).bind_then
      (leads_accept_none hquestion).bind_pure

/-- Assignments, whose target is read as an expression first. -/
theorem recognizes_assignmentHere (hg : g.Complete n) :
    Recognizes (assignmentHere g) .assignment (n + 1) := by
  intro last r e later he hr hstops
  -- A place, `=` and a value: the place is read as an expression first.
  have hassign {target value : Expr} {r₁ r₂ : List Token} {equal : Token}
      (htarget : Says .ternary r₁ target) (hequal : equal.kind = .equal)
      (hvalue : Says .assignment r₂ value) (hlt : (r₁ ++ equal :: r₂).length < n + 1)
      (hassign : assignment? target value = some e) :
      Leads last (assignmentHere g) (r₁ ++ equal :: r₂) (pure e) later := by
    simp only [List.length_append, List.length_cons] at hlt
    refine (recognizes_ternaryHere hg htarget (by omega) ?_).bind ((leads_accept hequal).bind ?_)
    · exact stops_of_kind hequal (by decide) _
    refine (hg.assignment hvalue (by omega) hstops).bind_then ?_
    simp only [hassign]
    exact .refl _
  by_cases heq : e.rank = .assignment
  · obtain ⟨hs, hle, hspells⟩ := he
    cases hspells with
    | @assign value r' equal name hequal hvalue =>
      obtain ⟨hname, hs, hle⟩ := hs
      have htarget : Says .ternary [name] (.variable name) :=
        ⟨hname, (by decide : Rank.ternary ≤ .primary), .name name⟩
      have := hassign htarget hequal ⟨hs, hle, hvalue⟩ (by simpa using hr) rfl
      simpa using this
    | @set object value r₁ r₂ dot equal name hobject hdot hequal hvalue =>
      obtain ⟨hs₁, hle₁, hname, hs, hle⟩ := hs
      have htarget : Says .ternary (r₁ ++ [dot, name]) (.get object name) :=
        ⟨⟨hs₁, hle₁, hname⟩, (by decide : Rank.ternary ≤ .call), .get name hobject hdot⟩
      have := hassign htarget hequal ⟨hs, hle, hvalue⟩ (by simpa using hr) rfl
      simpa using this
    | @setElement object index value r₁ r₂ r₃ opening equal bracket hobject hopening hindex hequal
        hvalue =>
      obtain ⟨hs₁, hle₁, hbracket, hs₂, hle₂, hs, hle⟩ := hs
      have htarget : Says .ternary (r₁ ++ opening :: (r₂ ++ [bracket]))
          (.subscript object bracket index) :=
        ⟨⟨hs₁, hle₁, hbracket, hs₂, hle₂⟩, (by decide : Rank.ternary ≤ .call),
          .subscript bracket hobject hopening hindex⟩
      have := hassign htarget hequal ⟨hs, hle, hvalue⟩ (by simpa using hr) rfl
      simpa using this
    | binary => exact absurd heq (binaryRank_binary hs).1
    | logical => exact absurd heq (binaryRank_logical hs).1
    | _ => cases heq
  · have hequal : nextKind later none ≠ some .equal := by
      intro h
      exact absurd (hstops _ h _ rfl) (by decide)
    exact (recognizes_ternaryHere hg (he.tighten rfl heq) hr (hstops.mono (by decide))).bind_then
      (leads_accept_none hequal).bind_pure

/-- **All expressions are recognized**, one level of nesting above those that are assumed to be. -/
theorem recognizes_expressionHere (hg : g.Complete n) :
    Recognizes (expressionHere g) .comma (n + 1) :=
  recognizes_chain has_comma rfl (recognizes_assignmentHere hg) (Nat.succ_le_succ hg.le_rounds)

end Grammar

end AliasScript
