import AliasScript.Proofs.Program.Recognized.Expression

/-!
# The statements that the grammar recognizes

Every stratified statement is what its parser gives for each of its spellings. Where a statement
may be told from others by its first tokens only, the lemmas on first tokens say that it can be.
-/

namespace AliasScript

namespace Grammar

open Parse

variable {g : Grammar} {n : Nat} {last : Option Token} {later : List Token}

/-! ### Clauses -/

/-- An expression, the end of its statement, and what is made of the expression. -/
theorem leads_terminated {p : Parse Expr} {f : Expr → Stmt} {cause : GrammarCause} {e : Expr}
    {r ends : List Token} (hp : Leads last p r (pure e) (ends ++ later)) (hne : r ≠ [])
    (hends : Ends r ends (nextKind later none)) :
    Leads last (do let e ← p; terminator cause; return f e) (r ++ ends) (pure (f e)) later := by
  have hlast : r.getLast?.or last = r.getLast? := by
    rw [List.getLast?_eq_some_getLast hne, Option.some_or]
  exact hp.bind (leads_terminator hends hlast).bind_pure

/-- An expression with its end. -/
theorem leads_expressionStatement (hg : g.Complete n) {value : Expr} {r ends : List Token}
    (hs : value.Stratified) (h : Spells (.expr value) r) (hends : Ends r ends (nextKind later none))
    (hr : r.length < n + 1) :
    Leads last (expressionStatement g) (r ++ ends) (pure (.expression value)) later :=
  leads_terminated (recognizes_expressionHere hg ⟨hs, Nat.zero_le _, h⟩ hr hends.stops)
    (h.begins hs).ne_nil hends

/-- A variable without an initial value. -/
theorem leads_varFrom_none {name : Token} {ends : List Token} (hname : name.kind = .identifier)
    (hends : Ends [name] ends (nextKind later none)) :
    Leads last (varFrom g) (name :: ends) (pure (.var name none)) later := by
  have hequal : nextKind (ends ++ later) none ≠ some .equal := by
    rcases hends with ⟨t, rfl, ht⟩ | ⟨rfl, h | h | h | ⟨⟨t, ht, hbrace⟩, -⟩⟩
    · simp [ht]
    · simp [h]
    · simp [h]
    · simp [h]
    · cases ht
      simp [hname] at hbrace
  refine (leads_expect hname).bind ((leads_accept_none hequal).bind_look ?_)
  exact (Leads.refl _).bind_look (leads_terminator hends rfl).bind_pure

/-- A variable with an initial value. -/
theorem leads_varFrom (hg : g.Complete n) {name equal : Token} {value : Expr} {r ends : List Token}
    (hname : name.kind = .identifier) (hequal : equal.kind = .equal) (hs : value.Stratified)
    (h : Spells (.expr value) r) (hends : Ends r ends (nextKind later none))
    (hr : r.length < n + 1) :
    Leads last (varFrom g) (name :: equal :: (r ++ ends)) (pure (.var name (some value)))
      later := by
  refine (leads_expect hname).bind ((leads_accept hequal).bind ?_)
  have hne := (h.begins hs).ne_nil
  have hlast {o : Option Token} : r.getLast?.or o = r.getLast? := by
    rw [List.getLast?_eq_some_getLast hne, Option.some_or]
  have hsays : Says .comma r value := ⟨hs, Nat.zero_le _, h⟩
  exact ((recognizes_expressionHere hg hsays hr hends.stops).map some).bind
    (leads_terminator hends hlast).bind_pure

/-- A value that is spelled as an expression is stratified as one. -/
theorem stratified_of_var {name : Token} {value : Expr} {r : List Token}
    (hs : (Stmt.var name (some value)).Stratified) (h : Spells (.expr value) r) :
    name.kind = .identifier ∧ value.Stratified := by
  cases value with
  | function f =>
    cases h with
    | literalFunction _ hname _ => exact ⟨hs.1, hname, hs.2.2⟩
  | _ => exact hs

/-! ### Statements -/

/-- A condition with one branch, if no `else` is next. -/
theorem leads_ifFrom_none (hg : g.Complete n) {keyword opening close : Token} {condition : Expr}
    {whenTrue : Stmt} {r r' : List Token} (hopening : opening.kind = .leftParen)
    (hs : condition.Stratified) (h : Spells (.expr condition) r) (hclose : close.kind = .rightParen)
    (hs' : whenTrue.Stratified) (hdecl : whenTrue.isDeclaration = false)
    (h' : Spells (.stmt whenTrue (nextKind later none)) r')
    (helse : nextKind later none ≠ some .elseWord) (hr : r.length < n) (hr' : r'.length < n) :
    Leads last (ifFrom g keyword) (opening :: (r ++ close :: r'))
      (pure (.ifElse keyword condition whenTrue none)) later := by
  refine (leads_expect hopening).bind ((hg.expression ⟨hs, Nat.zero_le _, h⟩ hr ?_).bind
    ((leads_expect hclose).bind ?_))
  · exact stops_of_kind hclose (by decide) _
  exact (hg.statement hs' hdecl h' hr').bind_then (leads_accept_none helse).bind_pure

/-- A condition with two branches. The first one has the second behind it. -/
theorem leads_ifFrom (hg : g.Complete n) {keyword opening close word : Token} {condition : Expr}
    {whenTrue whenFalse : Stmt} {r r' r'' : List Token} (hopening : opening.kind = .leftParen)
    (hs : condition.Stratified) (h : Spells (.expr condition) r) (hclose : close.kind = .rightParen)
    (hs' : whenTrue.Stratified) (hdecl' : whenTrue.isDeclaration = false)
    (h' : Spells (.stmt whenTrue (some .elseWord)) r') (hword : word.kind = .elseWord)
    (hs'' : whenFalse.Stratified) (hdecl'' : whenFalse.isDeclaration = false)
    (h'' : Spells (.stmt whenFalse (nextKind later none)) r'') (hr : r.length < n)
    (hr' : r'.length < n) (hr'' : r''.length < n) :
    Leads last (ifFrom g keyword) (opening :: (r ++ close :: (r' ++ word :: r'')))
      (pure (.ifElse keyword condition whenTrue (some whenFalse))) later := by
  refine (leads_expect hopening).bind ((hg.expression ⟨hs, Nat.zero_le _, h⟩ hr ?_).bind
    ((leads_expect hclose).bind ((hg.statement hs' hdecl' ?_ hr').bind
      ((leads_accept hword).bind ?_))))
  · exact stops_of_kind hclose (by decide) _
  · simpa [hword] using h'
  · exact (hg.statement hs'' hdecl'' h'' hr'').bind_pure

/-- A loop with its condition and its body. -/
theorem leads_whileFrom (hg : g.Complete n) {keyword opening close : Token} {condition : Expr}
    {body : Stmt} {r r' : List Token} (hopening : opening.kind = .leftParen)
    (hs : condition.Stratified) (h : Spells (.expr condition) r) (hclose : close.kind = .rightParen)
    (hs' : body.Stratified) (hdecl : body.isDeclaration = false)
    (h' : Spells (.stmt body (nextKind later none)) r') (hr : r.length < n) (hr' : r'.length < n) :
    Leads last (whileFrom g keyword) (opening :: (r ++ close :: r'))
      (pure (.loop keyword condition body)) later := by
  refine (leads_expect hopening).bind ((hg.expression ⟨hs, Nat.zero_le _, h⟩ hr ?_).bind
    ((leads_expect hclose).bind (hg.statement hs' hdecl h' hr').bind_pure))
  exact stops_of_kind hclose (by decide) _

/-- The first clause of a `for`, or its separator alone. -/
theorem leads_forInitial (hg : g.Complete n) {initial : Option Stmt} {r : List Token}
    (hs : ∀ s ∈ initial, s.Stratified) (h : Spells (.initial initial (nextKind later none)) r)
    (hr : r.length < n + 1) : Leads last (forInitial g) r (pure initial) later := by
  cases h with
  | noInitial hsemicolon => exact (leads_accept hsemicolon).bind_pure
  | @initial s _ _ h =>
    have hs := hs s rfl
    cases h with
    | @expression value r' ends _ h hends =>
      simp only [List.length_append] at hr
      have hbegins := h.begins hs
      refine (leads_accept_none ?_).bind_look ((leads_accept_none ?_).bind_look ?_)
      · simpa using hbegins.nextKind_ne rfl rfl _
      · simpa using hbegins.nextKind_ne rfl rfl _
      exact (leads_expressionStatement hg hs h hends (by omega)).map some
    | var name hkeyword hends =>
      refine (leads_accept_none (by simp [hkeyword])).bind_look ((leads_accept hkeyword).bind ?_)
      exact (leads_varFrom_none hs hends).map some
    | @varInitial value keyword equal r' ends _ name hkeyword hequal h hends =>
      obtain ⟨hname, hs⟩ := stratified_of_var hs h
      simp only [List.length_cons, List.length_append] at hr
      refine (leads_accept_none (by simp [hkeyword])).bind_look ((leads_accept hkeyword).bind ?_)
      exact (leads_varFrom hg hname hequal hs h hends (by omega)).map some

/-- What a `for` stands for is no declaration, so it may stand where a statement has to. -/
theorem isDeclaration_desugarFor (keyword : Token) (initial : Option Stmt) (condition : Expr)
    (increment : Option Expr) (body : Stmt) :
    (desugarFor keyword initial condition increment body).isDeclaration = false := by
  cases initial <;> rfl

/-- The clauses and the body of a `for` are stratified if the loop that it stands for is. -/
theorem stratified_of_desugarFor {keyword : Token} {initial : Option Stmt} {condition : Expr}
    {increment : Option Expr} {body : Stmt}
    (h : (desugarFor keyword initial condition increment body).Stratified) :
    (∀ s ∈ initial, s.Stratified) ∧ condition.Stratified ∧ (∀ e ∈ increment, e.Stratified) ∧
      body.Stratified := by
  cases initial with
  | none =>
    cases increment with
    | none => exact ⟨by simp, h.2.1, by simp, h.2.2.1⟩
    | some e => exact ⟨by simp, h.2.1, by rintro _ ⟨⟩; exact h.2.2.1.2.1, h.2.2.1.1⟩
  | some s =>
    cases increment with
    | none => exact ⟨by simpa using h.1, h.2.1.2.1, by simp, h.2.1.2.2.1⟩
    | some e =>
      exact ⟨by simpa using h.1, h.2.1.2.1, by rintro _ ⟨⟩; exact h.2.1.2.2.1.2.1,
        h.2.1.2.2.1.1⟩

/-- **A `for` leads to the loop that it stands for.** -/
theorem leads_forFrom (hg : g.Complete n) {keyword opening semicolon close : Token}
    {initial : Option Stmt} {condition : Expr} {increment : Option Expr} {body : Stmt}
    {r₁ r₂ r₃ r₄ : List Token} (hopening : opening.kind = .leftParen)
    (hs : (desugarFor keyword initial condition increment body).Stratified)
    (h₁ : Spells (.initial initial (nextKind r₂ (some .semicolon))) r₁)
    (h₂ : Spells (.condition condition) r₂) (hsemicolon : semicolon.kind = .semicolon)
    (h₃ : Spells (.increment increment) r₃) (hclose : close.kind = .rightParen)
    (h₄ : Spells (.stmt body (nextKind later none)) r₄) (hdecl : body.isDeclaration = false)
    (hr : r₁.length + r₂.length + r₃.length + r₄.length < n) :
    Leads last (forFrom g keyword)
      (opening :: (r₁ ++ (r₂ ++ semicolon :: (r₃ ++ close :: r₄))))
      (pure (desugarFor keyword initial condition increment body)) later := by
  obtain ⟨hs₁, hs₂, hs₃, hs₄⟩ := stratified_of_desugarFor hs
  have hbody {last : Option Token} :
      Leads last g.statement r₄ (pure body) later := hg.statement hs₄ hdecl h₄ (by omega)
  have hincrement {last : Option Token} : Leads last (do
      let increment ← if ← check .rightParen then pure none else some <$> g.expression
      let _ ← expect .rightParen .forClausesEnd
      return desugarFor keyword initial condition increment (← g.statement)) (r₃ ++ close :: r₄)
      (pure (desugarFor keyword initial condition increment body)) later := by
    cases h₃ with
    | noIncrement =>
      refine (leads_check (by simp [hclose])).bind_look (.ite_true ?_)
      exact (Leads.refl _).bind_look ((leads_expect hclose).bind hbody.bind_pure)
    | @increment e _ h₃ =>
      have hs₃ := hs₃ e rfl
      refine (leads_check_not ?_).bind_look (.ite_false ?_)
      · simpa using (h₃.begins hs₃).nextKind_ne rfl rfl _
      refine ((hg.expression ⟨hs₃, Nat.zero_le _, h₃⟩ (by omega) ?_).map some).bind
        ((leads_expect hclose).bind hbody.bind_pure)
      exact stops_of_kind hclose (by decide) _
  refine (leads_expect hopening).bind ((leads_forInitial hg hs₁ ?_ (by omega)).bind ?_)
  · simpa [hsemicolon] using h₁
  cases h₂ with
  | noCondition =>
    refine (leads_check (by simp [hsemicolon])).bind_look (.ite_true ?_)
    exact (Leads.refl _).bind_look ((leads_expect hsemicolon).bind hincrement)
  | condition h₂ =>
    refine (leads_check_not ?_).bind_look (.ite_false ?_)
    · simpa using (h₂.begins hs₂).nextKind_ne rfl rfl _
    refine (hg.expression ⟨hs₂, Nat.zero_le _, h₂⟩ (by omega) ?_).bind
      ((leads_expect hsemicolon).bind hincrement)
    exact stops_of_kind hsemicolon (by decide) _

/-- A return without a value. It has to see that nothing of an expression is next, and `else` looks
like one. -/
theorem leads_returnFrom_none {keyword : Token} {ends : List Token}
    (hkeyword : keyword.kind = .returnWord) (hends : Ends [keyword] ends (nextKind later none))
    (helse : ends = [] → nextKind later none ≠ some .elseWord) :
    Leads (some keyword) (returnFrom g keyword) ends (pure (.ret keyword none)) later := by
  have hnext : nextKind (ends ++ later) none = some .semicolon ∨
      nextKind (ends ++ later) none = some .rightBrace ∨ nextKind (ends ++ later) none = none := by
    rcases hends with ⟨t, rfl, ht⟩ | ⟨rfl, h | h | h | ⟨⟨t, ht, hbrace⟩, -⟩⟩
    · exact .inl (by simp [ht])
    · exact .inr (.inr h)
    · exact .inr (.inl h)
    · exact absurd h (helse rfl)
    · cases ht
      simp [hkeyword] at hbrace
  refine leads_get fun c hc _ ↦ ?_
  have hnone : (c.check .semicolon || c.check .rightBrace || c.atEnd) = true := by
    simpa only [Bool.or_eq_true, Cursor.check_eq_true_iff, Cursor.atEnd_iff, hc, or_assoc]
      using hnext
  rw [hnone]
  exact .ite_true ((Leads.refl _).bind_look (leads_terminator hends rfl).bind_pure)

/-- A return with a value. -/
theorem leads_returnFrom (hg : g.Complete n) {keyword : Token} {value : Expr} {r ends : List Token}
    (hs : value.Stratified) (h : Spells (.expr value) r) (hends : Ends r ends (nextKind later none))
    (hr : r.length < n) :
    Leads last (returnFrom g keyword) (r ++ ends) (pure (.ret keyword (some value))) later := by
  have hbegins := h.begins hs
  refine leads_get fun c hc _ ↦ ?_
  have hnot : (c.check .semicolon || c.check .rightBrace || c.atEnd) = false := by
    rw [← Bool.not_eq_true]
    simp only [Bool.or_eq_true, Cursor.check_eq_true_iff, Cursor.atEnd_iff, hc, List.append_assoc,
      nextKind_append]
    rintro ((h | h) | h)
    · exact hbegins.nextKind_ne rfl rfl _ h
    · exact hbegins.nextKind_ne rfl rfl _ h
    · exact hbegins.nextKind_ne_none _ h
  have hlast : r.getLast?.or last = r.getLast? := by
    rw [List.getLast?_eq_some_getLast hbegins.ne_nil, Option.some_or]
  rw [hnot]
  exact .ite_false (((hg.expression ⟨hs, Nat.zero_le _, h⟩ hr hends.stops).map some).bind
    (leads_terminator hends hlast).bind_pure)

/-- An import with the name of its module. -/
theorem leads_importFrom (hg : g.Complete n) {keyword : Token} {name : Expr} {r ends : List Token}
    (hs : name.Stratified) (h : Spells (.expr name) r) (hends : Ends r ends (nextKind later none))
    (hr : r.length < n) :
    Leads last (importFrom g keyword) (r ++ ends) (pure (.importModule keyword name)) later :=
  leads_terminated (hg.expression ⟨hs, Nat.zero_le _, h⟩ hr hends.stops) (h.begins hs).ne_nil hends

/-- **A statement that is no declaration is recognized by its first token.** -/
theorem leads_statementHere (hg : g.Complete n) {s : Stmt} {r : List Token} (hs : s.Stratified)
    (hdecl : s.isDeclaration = false) (h : Spells (.stmt s (nextKind later none)) r)
    (hr : r.length < n + 1) : Leads last (statementHere g) r (pure s) later := by
  -- Behind the first token, the parser for its kind takes over.
  have hfirst {t : Token} {r : List Token} {p : Parse Stmt}
      (ht : startsKeywordStatement t.kind = true)
      (hp : statementFrom g t = p)
      (h : Leads (some t) p r (pure s) later) :
      Leads last (statementHere g) (t :: r) (pure s) later := by
    subst hp
    exact (leads_acceptIf ht).bind h
  cases h with
  | clause h =>
    cases h with
    | @expression value r' ends _ h hends =>
      simp only [List.length_append] at hr
      refine (leads_acceptIf_none ?_).bind_look (leads_expressionStatement hg hs h hends (by omega))
      obtain ⟨t, rest, rfl, ht⟩ := h.begins hs
      rintro kind ⟨⟩
      revert ht
      cases t.kind <;> first | exact fun _ ↦ rfl | (rintro (h | h) <;> cases h)
    | var | varInitial => cases hdecl
  | @block body _ r' opening close hopening h hclose =>
    simp only [List.length_cons, List.length_append] at hr
    refine hfirst (by rw [hopening]; rfl) (by rw [statementFrom, hopening]) ?_
    exact (hg.block hs h hclose (by simpa using hr)).map _
  | @ifThen condition whenTrue _ r₁ r₂ opening close keyword hopening h₁ hclose h₂ helse =>
    obtain ⟨hkeyword, hs₁, hs₂, hdecl₂⟩ := hs
    simp only [List.length_cons, List.length_append] at hr
    refine hfirst (by rw [hkeyword]; rfl) (by rw [statementFrom, hkeyword]) ?_
    exact leads_ifFrom_none hg hopening hs₁ h₁ hclose hs₂ hdecl₂ h₂ helse (by omega) (by omega)
  | @ifElse condition whenTrue whenFalse _ r₁ r₂ r₃ opening close word keyword hopening h₁ hclose h₂
      hword h₃ =>
    obtain ⟨hkeyword, hs₁, hs₂, hdecl₂, -, hs₃, hdecl₃⟩ := hs
    simp only [List.length_cons, List.length_append] at hr
    refine hfirst (by rw [hkeyword]; rfl) (by rw [statementFrom, hkeyword]) ?_
    exact leads_ifFrom hg hopening hs₁ h₁ hclose hs₂ hdecl₂ h₂ hword hs₃ hdecl₃ h₃ (by omega)
      (by omega) (by omega)
  | @whileLoop condition body _ r₁ r₂ opening close keyword hkeyword hopening h₁ hclose h₂ =>
    obtain ⟨-, hs₁, hs₂, hdecl₂⟩ := hs
    simp only [List.length_cons, List.length_append] at hr
    refine hfirst (by rw [hkeyword]; rfl) (by rw [statementFrom, hkeyword]) ?_
    exact leads_whileFrom hg hopening hs₁ h₁ hclose hs₂ hdecl₂ h₂ (by omega) (by omega)
  | @forLoop _ initial condition increment body _ r₁ r₂ r₃ r₄ keyword opening semicolon close
      hkeyword hopening h₁ h₂ hsemicolon h₃ hclose h₄ hdecl₄ heq =>
    subst heq
    simp only [List.length_cons, List.length_append] at hr
    refine hfirst (by rw [hkeyword]; rfl) (by rw [statementFrom, hkeyword]) ?_
    exact leads_forFrom hg hopening hs h₁ h₂ hsemicolon h₃ hclose h₄ hdecl₄ (by omega)
  | ret keyword hends helse =>
    have hkeyword : keyword.kind = .returnWord := hs
    refine hfirst (by rw [hkeyword]; rfl) (by rw [statementFrom, hkeyword]) ?_
    exact leads_returnFrom_none hkeyword hends helse
  | retValue keyword h hends =>
    obtain ⟨hkeyword, hs⟩ := hs
    simp only [List.length_cons, List.length_append] at hr
    refine hfirst (by rw [hkeyword]; rfl) (by rw [statementFrom, hkeyword]) ?_
    exact leads_returnFrom hg hs h hends (by omega)
  | importModule keyword h hends =>
    obtain ⟨hkeyword, hs⟩ := hs
    simp only [List.length_cons, List.length_append] at hr
    refine hfirst (by rw [hkeyword]; rfl) (by rw [statementFrom, hkeyword]) ?_
    exact leads_importFrom hg hs h hends (by omega)
  | classDecl | functionDeclaration => cases hdecl

/-! ### Declarations -/

/-- The methods of a class, in the order in which they are spelled. -/
theorem leads_methodsFrom (hg : g.Complete n) {methods classMethods : List Function}
    {r : List Token} {m : Nat} (hs : MethodsStratified methods)
    (hs' : MethodsStratified classMethods) (h : Spells (.methods methods classMethods) r)
    (hnext : nextKind later none = some .rightBrace) (hr : r.length < n) (hm : r.length < m) :
    Leads last (methodsFrom g m) r (pure (methods, classMethods)) later := by
  induction m generalizing methods classMethods r last with
  | zero => omega
  | succ m ih =>
    refine leads_get fun c hc _ ↦ ?_
    cases h with
    | noMethods =>
      have hend : (c.check .rightBrace || c.atEnd) = true := by
        simp only [Bool.or_eq_true, Cursor.check_eq_true_iff]
        exact .inl (hc.trans hnext)
      rw [hend]
      exact .ite_true (.refl _)
    | @method f methods _ name r₁ r₂ hname h₁ h₂ =>
      obtain ⟨⟨name', hname', hkind⟩, hs₁, hs₂⟩ := hs
      obtain rfl : name = name' := Option.some.inj (hname.symm.trans hname')
      simp only [List.length_cons, List.length_append] at hr hm
      have hgo : (c.check .rightBrace || c.atEnd) = false := by
        rw [← Bool.not_eq_true]
        simp only [Bool.or_eq_true, Cursor.check_eq_true_iff, Cursor.atEnd_iff, hc]
        simp [hkind]
      rw [hgo]
      refine .ite_false ((leads_accept_none (by simp [hkind])).bind_look
        ((leads_expect hkind).bind ?_))
      refine (leads_methodFrom hg hname hs₁ h₁ (by omega)).bind ?_
      exact (ih hs₂ hs' h₂ (by omega) (by omega)).bind_pure
    | @classMethod f _ classMethods keyword name r₁ r₂ hkeyword hname h₁ h₂ =>
      obtain ⟨⟨name', hname', hkind⟩, hs₁, hs₂⟩ := hs'
      obtain rfl : name = name' := Option.some.inj (hname.symm.trans hname')
      simp only [List.length_cons, List.length_append] at hr hm
      have hgo : (c.check .rightBrace || c.atEnd) = false := by
        rw [← Bool.not_eq_true]
        simp only [Bool.or_eq_true, Cursor.check_eq_true_iff, Cursor.atEnd_iff, hc]
        simp [hkeyword]
      rw [hgo]
      refine .ite_false ((leads_accept hkeyword).bind ((leads_expect hkind).bind ?_))
      refine (leads_methodFrom hg hname hs₁ h₁ (by omega)).bind ?_
      exact (ih hs hs₂ h₂ (by omega) (by omega)).bind_pure

/-- A class with its superclass, if it has one. -/
theorem leads_classFrom (hg : g.Complete n) {name opening close : Token} {superclass : Option Token}
    {methods classMethods : List Function} {r r' : List Token} (hname : name.kind = .identifier)
    (hsuper : ∀ t ∈ superclass, t.kind = .identifier) (h : SpellsSuperclass superclass r)
    (hopening : opening.kind = .leftBrace) (hs : MethodsStratified methods)
    (hs' : MethodsStratified classMethods) (h' : Spells (.methods methods classMethods) r')
    (hclose : close.kind = .rightBrace) (hr : r'.length < n) :
    Leads last (classFrom g) (name :: (r ++ opening :: (r' ++ [close])))
      (pure (.classDecl name superclass methods classMethods)) later := by
  have hrounds := hg.le_rounds
  have hbody {last : Option Token} : Leads last (classBody g name superclass)
      (opening :: (r' ++ [close])) (pure (.classDecl name superclass methods classMethods))
      later := by
    refine (leads_expect hopening).bind
      ((leads_methodsFrom hg hs hs' h' (by simp [hclose]) hr (by omega)).bind ?_)
    exact (leads_expect hclose).bind_pure
  refine (leads_expect hname).bind ?_
  cases h with
  | none =>
    refine (leads_accept_none (by simp [hopening])).bind_look ?_
    exact (Leads.refl _).bind_look hbody
  | some less t hless =>
    refine (leads_accept hless).bind ?_
    exact ((leads_expect (hsuper t rfl)).map some).bind hbody

/-- A function that is declared is a variable with a function for its value. -/
theorem leads_functionDeclarationFrom (hg : g.Complete n) {name : Token} {f : Function}
    {r : List Token} (hname : name.kind = .identifier) (hf : f.name = some name)
    (hparameters : f.parameters.isSome) (hs : f.Stratified) (h : Spells (.function f) r)
    (hr : r.length < n) :
    Leads last (functionDeclarationFrom g) (name :: r) (pure (.var name (some (.function f))))
      later := by
  refine (leads_expect hname).bind ?_
  rw [← hf]
  exact (leads_functionFrom hg hs hparameters h hr).bind_pure

/-! What a statement starts with. -/

/-- No other keyword starts the declaration of a function. -/
theorem startsFunctionDeclaration_cons {t : Token} (h : t.kind ≠ .funWord) (rest : List Token) :
    startsFunctionDeclaration (t :: rest) = false := by
  cases rest <;> simp [startsFunctionDeclaration, h]

/-- A function literal has no name behind its keyword, so no expression is taken for a function
declaration. -/
theorem startsFunctionDeclaration_expr {e : Expr} {r : List Token} (h : Spells (.expr e) r)
    (he : e.Stratified) (later : List Token) : startsFunctionDeclaration (r ++ later) = false := by
  generalize hphrase : Phrase.expr e = phrase at h
  induction h generalizing e later with
  | @literal v t hv =>
    refine startsFunctionDeclaration_cons (fun hkind ↦ ?_) _
    simp [Token.literal?, hkind] at hv
  | name name =>
    cases hphrase
    exact startsFunctionDeclaration_cons (by simp [show name.kind = .identifier from he]) _
  | this keyword =>
    cases hphrase
    exact startsFunctionDeclaration_cons (by simp [show keyword.kind = .thisWord from he]) _
  | super keyword method =>
    cases hphrase
    exact startsFunctionDeclaration_cons (by simp [he.1]) _
  | array bracket =>
    cases hphrase
    exact startsFunctionDeclaration_cons (by simp [he.1]) _
  | grouping hopening => exact startsFunctionDeclaration_cons (by simp [hopening]) _
  | @literalFunction f r keyword hkeyword _ hf =>
    cases hphrase
    cases hf with
    | getter => cases he.2.1
    | function hparen => simp [startsFunctionDeclaration, hparen]
  | unary operator =>
    cases hphrase
    refine startsFunctionDeclaration_cons ?_ _
    rcases he.1 with h | h <;> simp [h]
  | reference operator =>
    cases hphrase
    exact startsFunctionDeclaration_cons (by simp [he.1]) _
  | binary operator _ _ ih | logical operator _ _ ih =>
    cases hphrase
    obtain ⟨rank, -, hleft, -⟩ := he
    rw [List.append_assoc]
    exact ih hleft _ rfl
  | ternary question _ _ _ _ ih =>
    cases hphrase
    rw [List.append_assoc]
    exact ih he.2.1 _ rfl
  | assign name =>
    cases hphrase
    exact startsFunctionDeclaration_cons (by simp [he.1]) _
  | call paren _ _ _ ih =>
    cases hphrase
    rw [List.append_assoc]
    exact ih he.2.1 _ rfl
  | get name _ _ ih | set name _ _ _ _ ih | subscript bracket _ _ _ ih
  | setElement bracket _ _ _ _ _ ih =>
    cases hphrase
    rw [List.append_assoc]
    exact ih he.1 _ rfl
  | _ => cases hphrase

/-- No statement starts with what may stand behind one, and no statement that declares nothing
starts as a declaration does. -/
theorem starts_stmt {s : Stmt} {next : Option Kind} {r : List Token} (hs : s.Stratified)
    (h : Spells (.stmt s next) r) :
    (∃ t rest, r = t :: rest ∧ t.kind ≠ .rightBrace ∧ t.kind ≠ .elseWord) ∧
      (s.isDeclaration = false → ∀ later, nextKind (r ++ later) none ≠ some .classWord ∧
        nextKind (r ++ later) none ≠ some .varWord ∧
        startsFunctionDeclaration (r ++ later) = false) := by
  -- A keyword or a brace decides by itself.
  have hkeyword {t : Token} {rest : List Token} {kind : Kind} (ht : t.kind = kind)
      (hbrace : kind ≠ .rightBrace) (helse : kind ≠ .elseWord) (hclass : kind ≠ .classWord)
      (hvar : kind ≠ .varWord) (hfun : kind ≠ .funWord) :
      (∃ t' rest', t :: rest = t' :: rest' ∧ t'.kind ≠ .rightBrace ∧ t'.kind ≠ .elseWord) ∧
        (s.isDeclaration = false → ∀ later, nextKind (t :: rest ++ later) none ≠ some .classWord ∧
          nextKind (t :: rest ++ later) none ≠ some .varWord ∧
          startsFunctionDeclaration (t :: rest ++ later) = false) := by
    subst ht
    refine ⟨⟨t, rest, rfl, hbrace, helse⟩, fun _ later ↦
      ⟨?_, ?_, startsFunctionDeclaration_cons hfun _⟩⟩
    · simpa using hclass
    · simpa using hvar
  cases h with
  | clause h =>
    cases h with
    | @expression value r' ends _ h hends =>
      have hbegins := h.begins hs
      constructor
      · obtain ⟨t, rest, rfl, ht⟩ := hbegins
        refine ⟨t, _, rfl, fun hkind ↦ ?_, fun hkind ↦ ?_⟩
        · rw [hkind] at ht
          exact ht.elim nofun nofun
        · rw [hkind] at ht
          exact ht.elim nofun nofun
      · intro _ later
        rw [List.append_assoc, nextKind_append]
        exact ⟨hbegins.nextKind_ne rfl rfl _, hbegins.nextKind_ne rfl rfl _,
          startsFunctionDeclaration_expr h hs _⟩
    | var name hword => exact ⟨⟨_, _, rfl, by simp [hword], by simp [hword]⟩, nofun⟩
    | varInitial name hword => exact ⟨⟨_, _, rfl, by simp [hword], by simp [hword]⟩, nofun⟩
  | block hopening => exact hkeyword hopening nofun nofun nofun nofun nofun
  | ifThen => exact hkeyword hs.1 nofun nofun nofun nofun nofun
  | ifElse => exact hkeyword hs.1 nofun nofun nofun nofun nofun
  | whileLoop hword => exact hkeyword hword nofun nofun nofun nofun nofun
  | forLoop hword => exact hkeyword hword nofun nofun nofun nofun nofun
  | ret keyword =>
    exact hkeyword (show keyword.kind = .returnWord from hs) nofun nofun nofun nofun nofun
  | retValue => exact hkeyword hs.1 nofun nofun nofun nofun nofun
  | importModule => exact hkeyword hs.1 nofun nofun nofun nofun nofun
  | classDecl name hword => exact ⟨⟨_, _, rfl, by simp [hword], by simp [hword]⟩, nofun⟩
  | functionDeclaration hword => exact ⟨⟨_, _, rfl, by simp [hword], by simp [hword]⟩, nofun⟩

/-- **A declaration is recognized by its first tokens.** -/
theorem leads_declare (hg : g.Complete n) {s : Stmt} {r : List Token} (hs : s.Stratified)
    (h : Spells (.stmt s (nextKind later none)) r) (hr : r.length < n + 1) :
    Leads last (declare g) r (pure s) later := by
  cases hdecl : s.isDeclaration with
  | false =>
    obtain ⟨hclass, hvar, hfun⟩ := (starts_stmt hs h).2 hdecl later
    refine (leads_accept_none hclass).bind_look (leads_get fun c _ hc ↦ ?_)
    rw [hc, hfun]
    refine .ite_false ((leads_accept_none hvar).bind_look ?_)
    exact leads_statementHere hg hs hdecl h hr
  | true =>
    cases h with
    | clause h =>
      cases h with
      | expression => cases hdecl
      | var name hkeyword hends =>
        refine (leads_accept_none (by simp [hkeyword])).bind_look (leads_get fun c _ hc ↦ ?_)
        rw [hc, List.cons_append, startsFunctionDeclaration_cons (by simp [hkeyword])]
        exact .ite_false ((leads_accept hkeyword).bind (leads_varFrom_none hs hends))
      | varInitial name hkeyword hequal h hends =>
        obtain ⟨hname, hs⟩ := stratified_of_var hs h
        simp only [List.length_cons, List.length_append] at hr
        refine (leads_accept_none (by simp [hkeyword])).bind_look (leads_get fun c _ hc ↦ ?_)
        rw [hc, List.cons_append, startsFunctionDeclaration_cons (by simp [hkeyword])]
        exact .ite_false ((leads_accept hkeyword).bind
          (leads_varFrom hg hname hequal hs h hends (by omega)))
    | classDecl name hkeyword hsuper hopening h hclose =>
      obtain ⟨hname, hkinds, hs, hs'⟩ := hs
      simp only [List.length_cons, List.length_append] at hr
      exact (leads_accept hkeyword).bind
        (leads_classFrom hg hname hkinds hsuper hopening hs hs' h hclose (by omega))
    | functionDeclaration hkeyword hname hparameters h =>
      obtain ⟨hkind, -, -, hs⟩ := hs
      simp only [List.length_cons] at hr
      refine (leads_accept_none (by simp [hkeyword])).bind_look (leads_get fun c _ hc ↦ ?_)
      rw [hc, show startsFunctionDeclaration _ = true by
        simp [startsFunctionDeclaration, hkeyword, hkind]]
      exact .ite_true (leads_advance.bind
        (leads_functionDeclarationFrom hg hkind hname hparameters hs h (by omega)))
    | forLoop _ _ _ _ _ _ _ _ _ heq =>
      rw [heq, isDeclaration_desugarFor] at hdecl
      cases hdecl
    | _ => cases hdecl

/-- Without an error there is nothing to recover from. -/
theorem leads_declaration (hg : g.Complete n) {s : Stmt} {r : List Token} (hs : s.Stratified)
    (h : Spells (.stmt s (nextKind later none)) r) (hr : r.length < n + 1) :
    Leads last (declaration g) r (pure (some s)) later :=
  leads_recovering (leads_declare hg hs h hr)

/-- The declarations up to a closing brace. -/
theorem leads_declarationsFrom (hg : g.Complete n) {body : List Stmt} {r : List Token} {m : Nat}
    (hs : StmtsStratified body) (h : Spells (.stmts body (some .rightBrace)) r)
    (hnext : nextKind later none = some .rightBrace) (hr : r.length < n + 1) (hm : r.length < m) :
    Leads last (declarationsFrom g m) r (pure body) later := by
  induction m generalizing body r last with
  | zero => omega
  | succ m ih =>
    refine leads_get fun c hc _ ↦ ?_
    cases h with
    | noStmts =>
      have hend : (c.check .rightBrace || c.atEnd) = true := by
        simp only [Bool.or_eq_true, Cursor.check_eq_true_iff]
        exact .inl (hc.trans hnext)
      rw [hend]
      exact .ite_true (.refl _)
    | @stmts s body _ r₁ r₂ h₁ h₂ =>
      obtain ⟨⟨t, rest, rfl, ht, -⟩, -⟩ := starts_stmt hs.1 h₁
      simp only [List.length_cons, List.length_append] at hr hm
      have hgo : (c.check .rightBrace || c.atEnd) = false := by
        rw [← Bool.not_eq_true]
        simp only [Bool.or_eq_true, Cursor.check_eq_true_iff, Cursor.atEnd_iff, hc]
        simpa using ht
      rw [hgo]
      have hlt : (t :: rest).length < n + 1 := by
        simp only [List.length_cons]
        omega
      refine .ite_false ((leads_declaration hg hs.1 ?_ hlt).bind
        (ih hs.2 h₂ (by omega) (by omega)).bind_pure)
      simpa [hnext] using h₁

/-- A block up to its closing brace. -/
theorem leads_blockHere (hg : g.Complete n) {body : List Stmt} {r : List Token} {close : Token}
    (hs : StmtsStratified body) (h : Spells (.stmts body (some .rightBrace)) r)
    (hclose : close.kind = .rightBrace) (hr : r.length < n) :
    Leads last (blockHere g) (r ++ [close]) (pure body) later := by
  have hrounds := hg.le_rounds
  exact (leads_declarationsFrom hg hs h (by simp [hclose]) (by omega) (by omega)).bind
    (leads_expect hclose).bind_pure

end Grammar

end AliasScript
