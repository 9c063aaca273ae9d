import AliasScript.Proofs.Program.Parsed.Expression

/-!
# The statements that the grammar gives

What each parser of statements and declarations gives, for a grammar whose parsers for nested parts
keep their promise already.
-/

namespace AliasScript

namespace Grammar

open Parse

variable {g : Grammar}

/-- What a parser of clauses gives. -/
def ReadClause (read : List Token) (s : Stmt) (c : Cursor) : Prop :=
  s.Stratified ∧ Spells (.clause s c.next?) read

/-- What a parser of declarations gives. -/
def ReadDeclaration (read : List Token) (s : Stmt) (c : Cursor) : Prop :=
  s.Stratified ∧ Spells (.stmt s c.next?) read

/-! ### Clauses -/

/-- An expression and the end of the statement that it ends. -/
theorem Says.ends {rank : Rank} {read later : List Token} {e : Expr} {c c' : Cursor}
    (h : Says rank read e) (hlast : read ≠ [] → c'.last = read.getLast?)
    (hstops : Stops .comma c'.next?) (hspans : c'.Spans later c) (hends : Terminates later c) :
    Ends read later c.next? :=
  hends.ends hspans (hlast (h.spells.begins h.stratified).ne_nil) fun _ ↦ hstops

/-- A statement of an expression, with what ends it. -/
theorem reads_expressionStatement (hg : g.Sound) :
    Reads (expressionStatement g) fun read s c ↦
      s.isDeclaration = false ∧ s.endsOpen = false ∧ ReadClause read s c := by
  refine (reads_expressionHere hg).last.bind_spans fun value ↦ reads_terminator_pure.imp ?_
  rintro read₂ _ c ⟨rfl, hends⟩ read₁ c₁ hspans ⟨⟨hvalue, hstops⟩, hlast⟩
  exact ⟨rfl, rfl, hvalue.stratified,
    .expression hvalue.spells (hvalue.ends hlast hstops hspans hends)⟩

/-- A variable is stratified if its initial value is. -/
theorem stratified_var {name : Token} {initial : Expr} (hname : name.kind = .identifier)
    (h : initial.Stratified) : (Stmt.var name (some initial)).Stratified := by
  cases initial with
  | function declaration => exact ⟨hname, .inl h.1, h.2⟩
  | _ => exact ⟨hname, h⟩

/-- A declaration of a variable, whose keyword was read before. -/
theorem reads_varFrom (hg : g.Sound) :
    Reads (varFrom g) fun read s c ↦ ∀ keyword : Token, keyword.kind = .varWord →
      ReadClause (keyword :: read) s c := by
  refine reads_expect.last.bind_spans fun name ↦ reads_accept.bind_spans fun a ↦ ?_
  cases a with
  | some equal =>
    refine Reads.bind_spans (P := fun read initial c ↦ ∃ e, initial = some e ∧
      ReadExpr .comma read e c ∧ (read ≠ [] → c.last = read.getLast?)) (.map ?_) fun initial ↦
      reads_terminator_pure.imp ?_
    · exact (reads_expressionHere hg).last.imp fun read e c h ↦ ⟨e, rfl, h⟩
    · rintro read₄ _ c ⟨rfl, hends⟩ read₃ c₃ hspans ⟨e, rfl, ⟨he, hstops⟩, hlast⟩ _ c₂ -
        (⟨t, ht, rfl, hequal⟩ | ⟨hnone, -⟩) _ c₁ - ⟨⟨rfl, hname⟩, -⟩ keyword hkeyword
      · exact ⟨stratified_var hname he.stratified, by
          simpa using .varInitial name hkeyword hequal he.spells
            (he.ends hlast hstops hspans hends)⟩
      · cases hnone
  | none =>
    refine Reads.bind (P := fun read initial _ ↦ read = [] ∧ initial = none)
      (.pure fun _ ↦ ⟨rfl, rfl⟩) fun initial ↦ reads_terminator_pure.imp ?_
    rintro read₄ _ c ⟨rfl, hends⟩ _ c₃ ⟨rfl, rfl⟩ _ c₂ - (⟨t, ht, -⟩ | ⟨-, rfl, -⟩) _ c₁ hspans
      ⟨⟨rfl, hname⟩, hlast⟩ keyword hkeyword
    · cases ht
    · have hends' : Ends [name] read₄ c.next? := by
        refine hends.ends hspans (hlast (List.cons_ne_nil _ _)) ?_
        rintro ⟨_, ⟨⟩, hbrace⟩
        simp [hname] at hbrace
      exact ⟨hname, by simpa using .var name hkeyword hends'⟩

/-! ### Statements -/

/-- A condition with its branches. A branch that is left open takes the `else`. -/
theorem reads_ifFrom (hg : g.Sound) (keyword : Token) :
    Reads (ifFrom g keyword) fun read s c ↦ keyword.kind = .ifWord →
      ReadStmt (keyword :: read) s c := by
  refine reads_expect.bind fun opening ↦ hg.expression.bind fun condition ↦
    reads_expect.bind fun close ↦ hg.statement.bind_spans fun whenTrue ↦
    reads_accept.bind_spans fun a ↦ ?_
  cases a with
  | some word =>
    refine hg.statement.bind_spans fun whenFalse ↦ .pure ?_
    rintro c read₆ c₆ hspans₆ ⟨hfalse, hdecl₆, hopen₆, hspells₆⟩ _ c₅ -
      (⟨t, ht, rfl, hword⟩ | ⟨hnone, -⟩) read₄ c₄ hspans₄ ⟨htrue, hdecl₄, hopen₄, hspells₄⟩
      _ c₃ ⟨rfl, hclose⟩ read₂ c₂ ⟨⟨hcondition, -, hspells₂⟩, -⟩ _ c₁ ⟨rfl, hopening⟩ hkeyword
    · have hnext₄ : c₄.next? = some .elseWord := by simp [hspans₄.next?, hword]
      have hnext₆ : c₆.next? = c.next? := hspans₆.next?
      rw [hnext₄] at hopen₄ hspells₄
      rw [hnext₆] at hopen₆ hspells₆
      -- An open branch would have taken the `else` that stands behind it.
      have hclosed : whenTrue.endsOpen = false := by
        cases hopen : whenTrue.endsOpen with
        | false => rfl
        | true => exact absurd rfl (hopen₄ hopen)
      refine ⟨⟨hkeyword, hcondition, htrue, hdecl₄, hclosed, hfalse, hdecl₆⟩, rfl, hopen₆, ?_⟩
      simpa using .ifElse keyword hopening hspells₂ hclose hspells₄ hword hspells₆
    · cases hnone
  | none =>
    refine .pure ?_
    rintro c _ c₅ hspans₅ (⟨t, ht, -⟩ | ⟨-, rfl, helse⟩) read₄ c₄ hspans₄
      ⟨htrue, hdecl, -, hspells₄⟩ _ c₃ ⟨rfl, hclose⟩ read₂ c₂ ⟨⟨hcondition, -, hspells₂⟩, -⟩ _ c₁
      ⟨rfl, hopening⟩ hkeyword
    · cases ht
    · have hnext₄ : c₄.next? = c.next? := hspans₄.next?
      have hnext₅ : c₅.next? = c.next? := hspans₅.next?
      rw [hnext₄] at hspells₄
      rw [hnext₅] at helse
      refine ⟨⟨hkeyword, hcondition, htrue, hdecl⟩, rfl, fun _ ↦ helse, ?_⟩
      simpa using .ifThen keyword hopening hspells₂ hclose hspells₄ helse

/-- A loop, whose keyword was read before. -/
theorem reads_whileFrom (hg : g.Sound) (keyword : Token) :
    Reads (whileFrom g keyword) fun read s c ↦ keyword.kind = .whileWord →
      ReadStmt (keyword :: read) s c := by
  refine reads_expect.bind fun opening ↦ hg.expression.bind fun condition ↦
    reads_expect.bind fun close ↦ hg.statement.bind_spans fun body ↦ .pure ?_
  rintro c read₄ c₄ hspans ⟨hbody, hdecl, hopen, hspells₄⟩ _ c₃ ⟨rfl, hclose⟩ read₂ c₂
    ⟨⟨hcondition, -, hspells₂⟩, -⟩ _ c₁ ⟨rfl, hopening⟩ hkeyword
  have hnext : c₄.next? = c.next? := hspans.next?
  rw [hnext] at hopen hspells₄
  refine ⟨⟨.inl hkeyword, hcondition, hbody, hdecl⟩, rfl, hopen, ?_⟩
  simpa using .whileLoop hkeyword hopening hspells₂ hclose hspells₄

/-- The first clause of a `for`, with its separator. -/
theorem reads_forInitial (hg : g.Sound) :
    Reads (forInitial g) fun read initial c ↦
      (∀ s ∈ initial, s.Stratified) ∧ Spells (.initial initial c.next?) read := by
  refine reads_accept.bind fun a ↦ ?_
  cases a with
  | some semicolon =>
    refine .pure ?_
    rintro c _ c₁ (⟨t, ht, rfl, hsemicolon⟩ | ⟨hnone, -⟩)
    · exact ⟨by simp, .noInitial hsemicolon⟩
    · cases hnone
  | none =>
    refine reads_accept.bind fun a ↦ ?_
    cases a with
    | some keyword =>
      refine .map ((reads_varFrom hg).imp ?_)
      rintro read₃ s c h _ c₂ (⟨t, ht, rfl, hkeyword⟩ | ⟨hnone, -⟩)
        _ c₁ (⟨t', ht', -⟩ | ⟨-, rfl, -⟩)
      · cases ht'
      · obtain ⟨hs, hspells⟩ := h t hkeyword
        exact ⟨by simpa using hs, .initial hspells⟩
      · cases ht'
      · cases hnone
    | none =>
      refine .map ((reads_expressionStatement hg).imp ?_)
      rintro read₃ s c ⟨-, -, hs, hspells⟩ _ c₂ (⟨t, ht, -⟩ | ⟨-, rfl, -⟩) _ c₁
        (⟨t', ht', -⟩ | ⟨-, rfl, -⟩)
      · cases ht
      · cases ht
      · cases ht'
      · exact ⟨by simpa using hs, .initial hspells⟩

/-- The loop that a `for` stands for is stratified, and an `else` behind it would belong to its body
only if nothing is wrapped around the body. -/
theorem stratified_desugarFor {keyword : Token} {initial : Option Stmt} {condition : Expr}
    {increment : Option Expr} {body : Stmt} (hkeyword : keyword.kind = .forWord)
    (hinitial : ∀ s ∈ initial, s.Stratified) (hcondition : condition.Stratified)
    (hincrement : ∀ e ∈ increment, e.Stratified) (hbody : body.Stratified)
    (hdecl : body.isDeclaration = false) :
    (desugarFor keyword initial condition increment body).Stratified ∧
      (desugarFor keyword initial condition increment body).isDeclaration = false ∧
      ((desugarFor keyword initial condition increment body).endsOpen = true →
        body.endsOpen = true) := by
  have hloop {b : Stmt} (hb : b.Stratified) (hd : b.isDeclaration = false) :
      (Stmt.loop keyword condition b).Stratified :=
    ⟨.inr hkeyword, hcondition, hb, hd⟩
  cases initial with
  | none =>
    cases increment with
    | none => exact ⟨hloop hbody hdecl, rfl, id⟩
    | some e => exact ⟨hloop ⟨hbody, hincrement e rfl, trivial⟩ rfl, rfl, fun h ↦ nomatch h⟩
  | some s =>
    cases increment with
    | none => exact ⟨⟨hinitial s rfl, hloop hbody hdecl, trivial⟩, rfl, fun h ↦ nomatch h⟩
    | some e =>
      exact ⟨⟨hinitial s rfl, hloop ⟨hbody, hincrement e rfl, trivial⟩ rfl, trivial⟩, rfl,
        fun h ↦ nomatch h⟩

/-- **A `for` is read as the loop that it stands for**, and its tokens spell that loop. -/
theorem reads_forFrom (hg : g.Sound) (keyword : Token) :
    Reads (forFrom g keyword) fun read s c ↦ keyword.kind = .forWord →
      ReadStmt (keyword :: read) s c := by
  refine reads_expect.bind fun opening ↦ (reads_forInitial hg).bind_spans fun initial ↦
    reads_check.bind fun ended ↦ .bind_ite
      (P := fun read e _ ↦ e.Stratified ∧ Spells (.condition e) read)
      (fun _ ↦ .pure fun _ ↦ ⟨trivial, .noCondition⟩)
      (fun _ ↦ hg.expression.imp fun _ _ _ h ↦ ⟨h.1.stratified, .condition h.1.spells⟩)
      fun condition ↦
    reads_expect.bind fun semicolon ↦ reads_check.bind fun closed ↦ .bind_ite
      (P := fun read increment _ ↦ (∀ e ∈ increment, e.Stratified) ∧
        Spells (.increment increment) read)
      (fun _ ↦ .pure fun _ ↦ ⟨by simp, .noIncrement⟩)
      (fun _ ↦ .map (hg.expression.imp fun _ e _ h ↦
        ⟨by simpa using h.1.stratified, .increment h.1.spells⟩))
      fun increment ↦ reads_expect.bind fun close ↦ hg.statement.bind_spans fun body ↦ .pure ?_
  rintro c read₉ c₉ hspans₉ ⟨hbody, hdecl, hopen, hspells₉⟩ _ c₈ ⟨rfl, hclose⟩ read₇ c₇
    ⟨hincrement, hspells₇⟩ _ c₆ ⟨rfl, -⟩ _ c₅ ⟨rfl, hsemicolon⟩ read₄ c₄ ⟨hcondition, hspells₄⟩ _ c₃
    ⟨rfl, -⟩ read₂ c₂ hspans₂ ⟨hinitial, hspells₂⟩ _ c₁ ⟨rfl, hopening⟩ hkeyword
  obtain ⟨hs, hsdecl, hsopen⟩ :=
    stratified_desugarFor hkeyword hinitial hcondition hincrement hbody hdecl
  have hnext₉ : c₉.next? = c.next? := hspans₉.next?
  have hnext₂ : c₂.next? = nextKind read₄ (some .semicolon) := by simp [hspans₂.next?, hsemicolon]
  rw [hnext₉] at hopen hspells₉
  rw [hnext₂] at hspells₂
  refine ⟨hs, hsdecl, fun h ↦ hopen (hsopen h), ?_⟩
  simpa using .forLoop hkeyword hopening hspells₂ hspells₄ hsemicolon hspells₇ hclose hspells₉ hdecl
    rfl

/-- A return, whose keyword is the token read last. -/
theorem reads_returnFrom (hg : g.Sound) (keyword : Token) :
    Reads (returnFrom g keyword) fun read s c ↦ ∀ c', Cursor.Spans c' read c →
      c'.last = some keyword → keyword.kind = .returnWord → ReadStmt (keyword :: read) s c := by
  unfold returnFrom
  refine reads_get.bind_spans fun c₀ ↦ .ite (fun hnone ↦ ?_) fun _ ↦ ?_
  · refine Reads.bind (P := fun read value _ ↦ read = [] ∧ value = none)
      (.pure fun _ ↦ ⟨rfl, rfl⟩) fun value ↦ reads_terminator_pure.imp ?_
    rintro read₃ _ c ⟨rfl, hends⟩ _ c₂ ⟨rfl, rfl⟩ _ c₁ hspans₁ ⟨rfl, rfl⟩ c' hspans hlast hkeyword
    simp only [List.nil_append] at hspans hspans₁ ⊢
    have hends' : Ends [keyword] read₃ c.next? := by
      refine hends.ends hspans hlast ?_
      rintro ⟨_, ⟨⟩, hbrace⟩
      simp [hkeyword] at hbrace
    refine ⟨hkeyword, rfl, fun h ↦ (nomatch h), .ret keyword hends' ?_⟩
    rintro rfl helse
    simp only [Bool.or_eq_true, Cursor.check_eq_true_iff, Cursor.atEnd_iff, hspans₁.next?,
      nextKind_nil, helse] at hnone
    simp at hnone
  · refine Reads.bind_spans (P := fun read value c ↦ ∃ e, value = some e ∧
      ReadExpr .comma read e c ∧ (read ≠ [] → c.last = read.getLast?)) (.map ?_) fun value ↦
      reads_terminator_pure.imp ?_
    · exact hg.expression.last.imp fun read e c h ↦ ⟨e, rfl, h⟩
    · rintro read₃ _ c ⟨rfl, hends⟩ read₂ c₂ hspans ⟨e, rfl, ⟨he, hstops⟩, hlast⟩
        _ c₁ - ⟨rfl, -⟩ c' -
        - hkeyword
      refine ⟨⟨hkeyword, he.stratified⟩, rfl, fun h ↦ (nomatch h), ?_⟩
      simpa using .retValue keyword he.spells (he.ends hlast hstops hspans hends)

/-- An import, whose keyword was read before. -/
theorem reads_importFrom (hg : g.Sound) (keyword : Token) :
    Reads (importFrom g keyword) fun read s c ↦ keyword.kind = .importWord →
      ReadStmt (keyword :: read) s c := by
  refine hg.expression.last.bind_spans fun name ↦ reads_terminator_pure.imp ?_
  rintro read₂ _ c ⟨rfl, hends⟩ read₁ c₁ hspans ⟨⟨hname, hstops⟩, hlast⟩ hkeyword
  exact ⟨⟨hkeyword, hname.stratified⟩, rfl, fun h ↦ (nomatch h),
    .importModule keyword hname.spells (hname.ends hlast hstops hspans hends)⟩

/-- **What is read as a statement is spelled by it.** -/
theorem reads_statementHere (hg : g.Sound) : Reads (statementHere g) ReadStmt := by
  refine reads_acceptIf.last.bind_spans fun a ↦ ?_
  cases a with
  | none =>
    refine (reads_expressionStatement hg).imp ?_
    rintro read s c ⟨hdecl, hopen, hs, hspells⟩ _ c₁ - ⟨⟨t, ht, -⟩ | ⟨-, rfl, -⟩, -⟩
    · cases ht
    · refine ⟨hs, hdecl, fun h ↦ ?_, .clause hspells⟩
      rw [hopen] at h
      cases h
  | some t =>
    show Reads (statementFrom g t) _
    unfold statementFrom
    split
    case h_1 hkind =>
      refine (reads_ifFrom hg t).imp ?_
      rintro read s c h _ c₁ - ⟨⟨_, ⟨⟩, rfl, -⟩ | ⟨hnone, -⟩, -⟩
      · exact h hkind
      · cases hnone
    case h_2 hkind =>
      refine (reads_returnFrom hg t).imp ?_
      rintro read s c h _ c₁ hspans ⟨⟨_, ⟨⟩, rfl, -⟩ | ⟨hnone, -⟩, hlast⟩
      · exact h c₁ hspans (hlast (List.cons_ne_nil _ _)) hkind
      · cases hnone
    case h_3 hkind =>
      refine (reads_whileFrom hg t).imp ?_
      rintro read s c h _ c₁ - ⟨⟨_, ⟨⟩, rfl, -⟩ | ⟨hnone, -⟩, -⟩
      · exact h hkind
      · cases hnone
    case h_4 hkind =>
      refine (reads_forFrom hg t).imp ?_
      rintro read s c h _ c₁ - ⟨⟨_, ⟨⟩, rfl, -⟩ | ⟨hnone, -⟩, -⟩
      · exact h hkind
      · cases hnone
    case h_5 hkind =>
      refine (reads_importFrom hg t).imp ?_
      rintro read s c h _ c₁ - ⟨⟨_, ⟨⟩, rfl, -⟩ | ⟨hnone, -⟩, -⟩
      · exact h hkind
      · cases hnone
    case h_6 h₁ h₂ h₃ h₄ h₅ =>
      refine .map (hg.block.imp ?_)
      rintro _ body c ⟨ts, close, rfl, hclose, hbody, hspells⟩ _ c₁ -
        ⟨⟨_, ⟨⟩, rfl, hstarts⟩ | ⟨hnone, -⟩, -⟩
      · have hkind : t.kind = .leftBrace := by
          unfold startsKeywordStatement at hstarts
          split at hstarts <;> simp_all
        exact ⟨hbody, rfl, fun h ↦ (nomatch h), .block hkind hspells hclose⟩
      · cases hnone

/-! ### Declarations -/

/-- Methods and class methods, each with its body. -/
theorem reads_methodsFrom (hg : g.Sound) (n : Nat) :
    Reads (methodsFrom g n) fun read fs _ ↦
      MethodsStratified fs.1 ∧ MethodsStratified fs.2 ∧ Spells (.methods fs.1 fs.2) read := by
  induction n with
  | zero => exact reads_exhausted
  | succ n ih =>
    refine reads_get.bind fun c₀ ↦ .ite (fun _ ↦ .pure ?_) fun _ ↦ ?_
    · rintro c _ c₁ ⟨rfl, -⟩
      exact ⟨trivial, trivial, .noMethods⟩
    refine reads_accept.bind fun ofClass ↦ reads_expect.bind fun name ↦
      (reads_methodFrom hg).bind fun method ↦ ih.bind fun rest ↦ ?_
    obtain ⟨methods, classMethods⟩ := rest
    cases ofClass with
    | some keyword =>
      refine .pure ?_
      rintro c read₅ c₅ ⟨hmethods, hclass, hspells₅⟩ read₄ c₄ ⟨hname, hmethod, hspells₄⟩ _ c₃
        ⟨rfl, hkind⟩ _ c₂ (⟨_, ⟨⟩, rfl, hkeyword⟩ | ⟨hnone, -⟩) _ c₁ ⟨rfl, -⟩
      · refine ⟨hmethods, ⟨⟨name, hname, hkind⟩, hmethod, hclass⟩, ?_⟩
        simpa using .classMethod hkeyword hname hspells₄ hspells₅
      · cases hnone
    | none =>
      refine .pure ?_
      rintro c read₅ c₅ ⟨hmethods, hclass, hspells₅⟩ read₄ c₄ ⟨hname, hmethod, hspells₄⟩ _ c₃
        ⟨rfl, hkind⟩ _ c₂ (⟨_, hsome, -⟩ | ⟨-, rfl, -⟩) _ c₁ ⟨rfl, -⟩
      · cases hsome
      · refine ⟨⟨⟨name, hname, hkind⟩, hmethod, hmethods⟩, hclass, ?_⟩
        simpa using .method hname hspells₄ hspells₅

/-- A class behind its name and its superclass. -/
theorem reads_classBody (hg : g.Sound) (name : Token) (superclass : Option Token) :
    Reads (classBody g name superclass)
      fun read s c ↦ ∀ (keyword : Token) ts, keyword.kind = .classWord → name.kind = .identifier →
        (∀ t ∈ superclass, t.kind = .identifier) → SpellsSuperclass superclass ts →
        ReadDeclaration (keyword :: name :: (ts ++ read)) s c := by
  refine reads_expect.bind fun opening ↦ (reads_methodsFrom hg _).bind fun fs ↦ ?_
  obtain ⟨methods, classMethods⟩ := fs
  refine reads_expect.bind fun close ↦ .pure ?_
  rintro c _ c₃ ⟨rfl, hclose⟩ read₂ c₂ ⟨hmethods, hclass, hspells⟩ _ c₁ ⟨rfl, hopening⟩ keyword ts
    hkeyword hname hsuper hspells'
  exact ⟨⟨hname, hsuper, hmethods, hclass⟩,
    .classDecl name hkeyword hspells' hopening hspells hclose⟩

/-- A class, whose keyword was read before. -/
theorem reads_classFrom (hg : g.Sound) :
    Reads (classFrom g) fun read s c ↦ ∀ keyword : Token, keyword.kind = .classWord →
      ReadDeclaration (keyword :: read) s c := by
  refine reads_expect.bind fun name ↦ reads_accept.bind fun a ↦ ?_
  cases a with
  | some less =>
    refine Reads.bind (P := fun read superclass _ ↦ ∃ t, superclass = some t ∧ read = [t] ∧
      t.kind = .identifier) (.map (reads_expect.imp fun read t _ h ↦ ⟨t, rfl, h⟩)) fun superclass ↦
      (reads_classBody hg name superclass).imp ?_
    rintro read₄ s c h _ c₃ ⟨t, rfl, rfl, ht⟩ _ c₂ (⟨_, ⟨⟩, rfl, hless⟩ | ⟨hnone, -⟩) _ c₁
      ⟨rfl, hname⟩ keyword hkeyword
    · exact h keyword [less, t] hkeyword hname (by simpa using ht) (.some less t hless)
    · cases hnone
  | none =>
    refine Reads.bind (P := fun read superclass _ ↦ read = [] ∧ superclass = none)
      (.pure fun _ ↦ ⟨rfl, rfl⟩) fun superclass ↦ (reads_classBody hg name superclass).imp ?_
    rintro read₄ s c h _ c₃ ⟨rfl, rfl⟩ _ c₂ (⟨_, hsome, -⟩ | ⟨-, rfl, -⟩) _ c₁ ⟨rfl, hname⟩ keyword
      hkeyword
    · cases hsome
    · exact h keyword [] hkeyword hname (by simp) .none

/-- A function that is declared, whose keyword was read before. -/
theorem reads_functionDeclarationFrom (hg : g.Sound) :
    Reads (functionDeclarationFrom g) fun read s c ↦ ∀ keyword : Token, keyword.kind = .funWord →
      ReadDeclaration (keyword :: read) s c := by
  refine reads_expect.bind fun name ↦ (reads_functionFrom hg).bind fun f ↦ .pure ?_
  rintro c read₂ c₂ ⟨hname, hparameters, hf, hspells⟩ _ c₁ ⟨rfl, hkind⟩ keyword hkeyword
  refine ⟨⟨hkind, .inr hname, hparameters, hf⟩, ?_⟩
  simpa using .functionDeclaration hkeyword hname hparameters hspells

/-- A function is declared behind its keyword only. -/
theorem kind_of_startsFunctionDeclaration {t : Token} {rest : List Token}
    (h : startsFunctionDeclaration (t :: rest) = true) : t.kind = .funWord := by
  cases rest with
  | nil => cases h
  | cons name rest =>
    simp only [startsFunctionDeclaration, Bool.and_eq_true] at h
    exact eq_of_beq h.1

/-- A declaration by its first tokens. -/
theorem reads_declare (hg : g.Sound) : Reads (declare g) ReadDeclaration := by
  refine reads_accept.bind fun a ↦ ?_
  cases a with
  | some keyword =>
    refine (reads_classFrom hg).imp ?_
    rintro read s c h _ c₁ (⟨_, ⟨⟩, rfl, hkeyword⟩ | ⟨hnone, -⟩)
    · exact h keyword hkeyword
    · cases hnone
  | none =>
    refine reads_get.bind_spans fun c₀ ↦
      .ite (fun hstarts ↦ ?_) fun _ ↦ reads_accept.bind fun a ↦ ?_
    · refine reads_advance.bind_spans fun _ ↦ (reads_functionDeclarationFrom hg).imp ?_
      rintro read₃ s c h _ c₂ hspans₂ hread _ c₁ hspans₁ ⟨rfl, rfl⟩ _ c' (⟨_, ht, -⟩ | ⟨-, rfl, -⟩)
      · cases ht
      · rw [hspans₁.rest] at hstarts
        rcases hread with ⟨t, rfl⟩ | ⟨rfl, hrest⟩
        · exact h t (kind_of_startsFunctionDeclaration hstarts)
        · rw [List.nil_append, ← hspans₂.rest, hrest] at hstarts
          cases hstarts
    · cases a with
      | some keyword =>
        refine (reads_varFrom hg).imp ?_
        rintro read₃ s c h _ c₂ (⟨_, ⟨⟩, rfl, hkeyword⟩ | ⟨hnone, -⟩) _ c₁ - ⟨rfl, -⟩ _ c'
          (⟨_, ht, -⟩ | ⟨-, rfl, -⟩)
        · cases ht
        · obtain ⟨hs, hspells⟩ := h keyword hkeyword
          exact ⟨hs, .clause hspells⟩
        · cases ht
        · cases hnone
      | none =>
        refine (reads_statementHere hg).imp ?_
        rintro read₃ s c ⟨hs, -, -, hspells⟩ _ c₂ (⟨_, ht, -⟩ | ⟨-, rfl, -⟩) _ c₁ - ⟨rfl, -⟩ _ c'
          (⟨_, ht', -⟩ | ⟨-, rfl, -⟩)
        · cases ht
        · cases ht
        · cases ht'
        · exact ⟨hs, hspells⟩

/-- If a declaration is given, nothing had to be recovered from. -/
theorem reads_declaration (hg : g.Sound) :
    Reads (declaration g) fun read a c ↦ ∃ s, a = some s ∧ ReadDeclaration read s c :=
  reads_recovering (reads_declare hg)

/-- A declaration before a sequence makes it longer by one. What is left behind the sequence stays
the same. -/
theorem reads_declaration_then (hg : g.Sound) {p : Parse (List Stmt)} {Q : List Token → Prop}
    (hp : Reads p fun read body c ↦ Q c.rest ∧ ReadStmts read body c) :
    Reads (do let s ← declaration g; return s.toList ++ (← p))
      fun read body c ↦ Q c.rest ∧ ReadStmts read body c := by
  refine (reads_declaration hg).bind_spans fun a ↦ hp.bind_spans fun rest ↦ .pure ?_
  rintro c read₂ c₂ hspans₂ ⟨hQ, hrest, hspells₂⟩ read₁ c₁ hspans₁ ⟨s, rfl, hs, hspells₁⟩
  have hrest₂ : c₂.rest = c.rest := hspans₂.rest
  have hnext₂ : c₂.next? = c.next? := hspans₂.next?
  rw [hspans₁.next?, List.append_nil] at hspells₁
  rw [hnext₂] at hspells₂
  refine ⟨hrest₂ ▸ hQ, ⟨hs, hrest⟩, ?_⟩
  simpa using .stmts hspells₁ hspells₂

/-- The declarations of a block. -/
theorem reads_declarationsFrom (hg : g.Sound) (n : Nat) :
    Reads (declarationsFrom g n) fun read body c ↦ True ∧ ReadStmts read body c := by
  induction n with
  | zero => exact reads_exhausted
  | succ n ih =>
    refine reads_get.bind fun c₀ ↦ .ite (fun _ ↦ .pure ?_) fun _ ↦
      (reads_declaration_then (Q := fun _ ↦ True) hg ih).imp ?_
    · rintro c _ c₁ ⟨rfl, -⟩
      exact ⟨trivial, trivial, .noStmts⟩
    · rintro read body c h _ c₁ ⟨rfl, -⟩
      exact h

/-- A block, with its closing brace. -/
theorem reads_blockHere (hg : g.Sound) : Reads (blockHere g) ReadBlock := by
  refine (reads_declarationsFrom hg g.rounds).bind_spans fun body ↦
    reads_expect.bind fun close ↦ .pure ?_
  rintro c _ c₂ ⟨rfl, hclose⟩ read₁ c₁ hspans ⟨-, hbody, hspells⟩
  have hnext : c₁.next? = some .rightBrace := by simp [hspans.next?, hclose]
  rw [hnext] at hspells
  exact ⟨read₁, close, by simp, hclose, hbody, hspells⟩

end Grammar

end AliasScript
