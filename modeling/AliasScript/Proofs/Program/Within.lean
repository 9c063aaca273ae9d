import AliasScript.Proofs.Program.Progress
import AliasScript.Proofs.Program.Recognized

/-!
# Parsing ends within the input

Every list of tokens is read to its end, whatever is wrong with it. A declaration ends, completed or
given up, at a cursor that stands in the input and, unless it began at the end, further on
(`Grammar.declaration_proceeds`): after an error the token at which it was noticed is skipped in any
case. So the loop over declarations comes to the end of the input, and neither the levels of nesting
nor the rounds of a loop run out (`Grammar.programFrom_proceeds`).

**Nothing outside of the input is looked at.** What stands before the first token may be anything,
and a grammar whose nested parsers check, when they start and when they end, that the cursor stands
in the input (`Grammar.checkedDepth`) reads the same.
-/

namespace AliasScript

/-- Going on after an error gets ahead, unless nothing is left. -/
theorem Cursor.length_synchronize (c : Cursor) :
    c.synchronize.rest.length ≤ c.rest.length - 1 := by
  cases hrest : c.rest with
  | nil => simp [synchronize_of_nil hrest, hrest]
  | cons t rest =>
    obtain ⟨skipped, hspans⟩ := spans_synchronize hrest
    have hlength := congrArg List.length hspans.rest
    simp only [hrest, List.length_cons, List.length_append] at hlength ⊢
    omega

namespace Parse

variable {I : Input} {n : Nat}

/-- Advancing may stand at the end, so that no token is claimed to be read. -/
theorem proceeds_advance : Proceeds I n 0 (modify Cursor.advance) (modify Cursor.advance) := by
  intro c c' hc _
  refine .ok hc.advance ?_
  cases hrest : c.rest with
  | nil => simp [Cursor.advance, hrest]
  | cons t rest => simp [Cursor.advance, hrest]

/-- **A statement that is given up is behind the cursor as well.** Both runs go on, and they have
got ahead unless they stood at the end. -/
theorem recovering_proceeds {p p' : Parse Stmt} (h : Proceeds I n 1 p p') {c c' : Cursor}
    (hc : c.Beside I c') (hlt : c.rest.length < n) :
    ∃ s d d', recovering p c = .ok s d ∧ recovering p' c' = .ok s d' ∧ d.Beside I d' ∧
      d.rest.length ≤ c.rest.length - 1 := by
  have houtcome := h c c' hc hlt
  unfold recovering
  generalize p c = r at houtcome
  generalize p' c' = r' at houtcome
  cases houtcome with
  | @ok s d d' hd hk => exact ⟨some s, d, d', rfl, rfl, hd, by omega⟩
  | @error e d d' hd hk he =>
    refine ⟨none, _, _, rfl, rfl, (hd.record he e.cause).synchronize, ?_⟩
    exact Nat.le_trans (Cursor.length_synchronize _) (Nat.sub_le_sub_right hk 1)

end Parse

/-! ### Statements -/

namespace Grammar

open Parse

variable {I : Input} {n m m' : Nat} {g g' : Grammar} (hg : g.Proceeds I n g')
  (hn : n ≤ I.tokens.length)

section Nested

include hg hn

/-- An expression with its separator. -/
theorem proceeds_expressionStatement :
    Parse.Proceeds I (n + 1) 1 (expressionStatement g) (expressionStatement g') :=
  .bindRead (proceeds_expressionHere hg) fun _ ↦ .bind (proceeds_terminator hn _) fun _ ↦ .pure _

/-- A declaration of a variable, behind its keyword. -/
theorem proceeds_varFrom : Parse.Proceeds I n 0 (varFrom g) (varFrom g') := by
  refine .bind (proceeds_expect _ _) fun name ↦ ?_
  have hrest (initial : Option Expr) : Parse.Proceeds I n 0
      (do terminator .variableEnd; pure (Stmt.var name initial))
      (do terminator .variableEnd; pure (Stmt.var name initial)) :=
    .bind (proceeds_terminator hn _) fun _ ↦ .pure _
  have hvalue := (proceeds_expressionHere hg).mono (Nat.le_succ n) (Nat.zero_le 1)
  exact proceeds_accepted (fun _ _ ↦ .bind hvalue.map hrest) (.bind (.pure none) hrest)

omit hn in
/-- Conditions and branches are of the level of nesting below. -/
theorem proceeds_ifFrom (keyword : Token) :
    Parse.Proceeds I n 0 (ifFrom g keyword) (ifFrom g' keyword) :=
  .bind (proceeds_expect _ _) fun _ ↦ .bind hg.expression.uncounted fun _ ↦
    .bind (proceeds_expect _ _) fun _ ↦ .bind hg.statement.uncounted fun _ ↦
    proceeds_accepted (fun _ _ ↦ .bind hg.statement.uncounted fun _ ↦ .pure _) (.pure _)

omit hn in
/-- A loop with its condition and its body. -/
theorem proceeds_whileFrom (keyword : Token) :
    Parse.Proceeds I n 0 (whileFrom g keyword) (whileFrom g' keyword) :=
  .bind (proceeds_expect _ _) fun _ ↦ .bind hg.expression.uncounted fun _ ↦
    .bind (proceeds_expect _ _) fun _ ↦ .bind hg.statement.uncounted fun _ ↦ .pure _

/-- The first clause of a `for`, which may be missing. -/
theorem proceeds_forInitial : Parse.Proceeds I n 0 (forInitial g) (forInitial g') :=
  proceeds_accepted (fun _ _ ↦ .pure _) (proceeds_accepted
    (fun _ _ ↦ (proceeds_varFrom hg hn).map)
    ((proceeds_expressionStatement hg hn).mono (Nat.le_succ n) (Nat.zero_le 1)).map)

/-- The clauses are read in turn, each up to its separator or parenthesis. -/
theorem proceeds_forFrom (keyword : Token) :
    Parse.Proceeds I n 0 (forFrom g keyword) (forFrom g' keyword) := by
  refine .bind (proceeds_expect _ _) fun _ ↦ .bind (proceeds_forInitial hg hn) fun initial ↦
    .bind (proceeds_check _) fun absent ↦ ?_
  have hbody (condition : Expr) (increment : Option Expr) : Parse.Proceeds I n 0
      (do let _ ← expect .rightParen .forClausesEnd
          return desugarFor keyword initial condition increment (← g.statement))
      (do let _ ← expect .rightParen .forClausesEnd
          return desugarFor keyword initial condition increment (← g'.statement)) :=
    .bind (proceeds_expect _ _) fun _ ↦ .bind hg.statement.uncounted fun _ ↦ .pure _
  refine .ite (fun _ ↦ .bind (.pure _) fun condition ↦ ?_)
    fun _ ↦ .bind hg.expression.uncounted fun condition ↦ ?_
  all_goals
    refine .bind (proceeds_expect _ _) fun _ ↦ .bind (proceeds_check _) fun closed ↦ ?_
    exact .ite (fun _ ↦ .bind (.pure none) (hbody condition)) fun _ ↦
      .bind hg.expression.uncounted.map (hbody condition)

/-- The value may be missing, so a return claims its keyword only. -/
theorem proceeds_returnFrom (keyword : Token) :
    Parse.Proceeds I n 0 (returnFrom g keyword) (returnFrom g' keyword) := by
  refine .get fun c c' hc _ ↦ ?_
  have hrest (value : Option Expr) : Parse.Proceeds I n 0
      (do terminator .returnEnd; pure (Stmt.ret keyword value))
      (do terminator .returnEnd; pure (Stmt.ret keyword value)) :=
    .bind (proceeds_terminator hn _) fun _ ↦ .pure _
  rw [hc.check_eq, hc.check_eq, hc.atEnd_eq]
  exact .ite (fun _ ↦ .bind (.pure none) hrest) fun _ ↦ .bind hg.expression.uncounted.map hrest

/-- An import, behind its keyword. -/
theorem proceeds_importFrom (keyword : Token) :
    Parse.Proceeds I n 0 (importFrom g keyword) (importFrom g' keyword) :=
  .bind hg.expression.uncounted fun _ ↦ .bind (proceeds_terminator hn _) fun _ ↦ .pure _

/-- The first token was read, so that what is nested is of the level below. -/
theorem proceeds_statementFrom (t : Token) :
    Parse.Proceeds I n 0 (statementFrom g t) (statementFrom g' t) := by
  unfold statementFrom
  split
  · exact proceeds_ifFrom hg t
  · exact proceeds_returnFrom hg hn t
  · exact proceeds_whileFrom hg t
  · exact proceeds_forFrom hg hn t
  · exact proceeds_importFrom hg hn t
  · exact hg.block.uncounted.map

/-- **A statement reads at least one token.** -/
theorem proceeds_statementHere :
    Parse.Proceeds I (n + 1) 1 (statementHere g) (statementHere g') :=
  proceeds_acceptIf (Nat.le_refl 1) (fun t _ ↦ proceeds_statementFrom hg hn t)
    (proceeds_expressionStatement hg hn)

/-! ### Declarations -/

omit hn in
/-- A method reads its name at least, and the others come behind it. -/
theorem proceeds_methodThen {n' : Nat} {rest rest' : Parse (List Function × List Function)}
    (hn' : n' ≤ n) (hrest : Parse.Proceeds I n' 0 rest rest') (ofClass : Option Token) :
    Parse.Proceeds I (n' + 1) 0
      (do let name ← expect .identifier .methodName
          let method ← methodFrom g name
          let (methods, classMethods) ← rest
          match ofClass with
          | some _ => return (methods, method :: classMethods)
          | none => return (method :: methods, classMethods))
      (do let name ← expect .identifier .methodName
          let method ← methodFrom g' name
          let (methods, classMethods) ← rest'
          match ofClass with
          | some _ => return (methods, method :: classMethods)
          | none => return (method :: methods, classMethods)) := by
  refine .uncounted (.bindRead (advances_expect _ _) fun name ↦ ?_)
  refine .bind ((proceeds_methodFrom hg name).before hn') fun method ↦ .bind hrest fun _ ↦ ?_
  cases ofClass <;> exact .pure _

omit hn in
/-- Each round reads the name of a method. -/
theorem proceeds_methodsFrom {n' : Nat} (hn' : n' ≤ n) (hm : n' ≤ m) (hm' : n' ≤ m') :
    Parse.Proceeds I n' 0 (methodsFrom g m) (methodsFrom g' m') := by
  induction m generalizing n' m' with
  | zero =>
    obtain rfl := Nat.le_zero.1 hm
    exact .zero
  | succ m ih =>
    obtain _ | n' := n'
    · exact .zero
    obtain _ | m' := m'
    · omega
    refine .get fun c c' hc _ ↦ ?_
    rw [hc.check_eq, hc.atEnd_eq]
    refine .ite (fun _ ↦ .pure _) fun _ ↦ ?_
    have hmethod := proceeds_methodThen hg (Nat.le_of_succ_le hn')
      (ih (Nat.le_of_succ_le hn') (by omega) (by omega : n' ≤ m'))
    exact proceeds_accepted (fun t _ ↦ hmethod (some t)) (hmethod none)

omit hn in
/-- The methods of a class, between braces. -/
theorem proceeds_classBody (name : Token) (superclass : Option Token) :
    Parse.Proceeds I n 0 (classBody g name superclass) (classBody g' name superclass) :=
  .bind (proceeds_expect _ _) fun _ ↦
    .bind (proceeds_methodsFrom hg (Nat.le_refl _) (Nat.le_of_lt hg.rounds)
      (Nat.le_of_lt hg.rounds')) fun _ ↦ .bind (proceeds_expect _ _) fun _ ↦ .pure _

omit hn in
/-- A class, behind its keyword. -/
theorem proceeds_classFrom : Parse.Proceeds I n 0 (classFrom g) (classFrom g') :=
  .bind (proceeds_expect _ _) fun name ↦ proceeds_accepted
    (fun _ _ ↦ .bind (proceeds_expect _ _).map fun superclass ↦
      proceeds_classBody hg name superclass)
    (.bind (.pure none) fun superclass ↦ proceeds_classBody hg name superclass)

omit hn in
/-- A function that is declared, behind its keyword. -/
theorem proceeds_functionDeclarationFrom :
    Parse.Proceeds I (n + 1) 1 (functionDeclarationFrom g) (functionDeclarationFrom g') :=
  .bindRead (advances_expect _ _) fun _ ↦ .bind (proceeds_functionFrom hg _ _) fun _ ↦ .pure _

/-- A declaration reads at least one token, or fails. -/
theorem proceeds_declare : Parse.Proceeds I (n + 1) 1 (declare g) (declare g') := by
  refine proceeds_acceptIf (Nat.le_refl 1) (fun _ _ ↦ proceeds_classFrom hg)
    (.get fun c c' hc _ ↦ ?_)
  rw [hc.rest]
  exact .ite (fun _ ↦ .bind proceeds_advance fun _ ↦ proceeds_functionDeclarationFrom hg)
    fun _ ↦ proceeds_acceptIf (Nat.le_refl 1) (fun _ _ ↦ proceeds_varFrom hg hn)
      (proceeds_statementHere hg hn)

/-- **A declaration ends in the input, and further on unless it began at the end.** -/
theorem declaration_proceeds {c c' : Cursor} (hc : c.Beside I c') (hlt : c.rest.length < n + 1) :
    ∃ s d d', declaration g c = .ok s d ∧ declaration g' c' = .ok s d' ∧ d.Beside I d' ∧
      d.rest.length ≤ c.rest.length - 1 :=
  recovering_proceeds (proceeds_declare hg hn) hc hlt

/-- Each round reads a token, in an error by going on behind it. -/
theorem proceeds_declarationsFrom {n' : Nat} (hn' : n' ≤ n + 1) (hm : n' ≤ m) (hm' : n' ≤ m') :
    Parse.Proceeds I n' 0 (declarationsFrom g m) (declarationsFrom g' m') := by
  induction m generalizing n' m' with
  | zero =>
    obtain rfl := Nat.le_zero.1 hm
    exact .zero
  | succ m ih =>
    obtain _ | n' := n'
    · exact .zero
    obtain _ | m' := m'
    · omega
    intro c c' hc hlt
    show Outcome I _ 0
      ((if c.check .rightBrace || c.atEnd then pure [] else
        (do let s ← declaration g; return s.toList ++ (← declarationsFrom g m)) : Parse _) c)
      ((if c'.check .rightBrace || c'.atEnd then pure [] else
        (do let s ← declaration g'; return s.toList ++ (← declarationsFrom g' m')) : Parse _) c')
    rw [← hc.check_eq, ← hc.atEnd_eq]
    split
    · exact .ok hc (Nat.le_refl _)
    · next hend =>
      have hpos : 0 < c.rest.length := by
        refine List.length_pos_iff.2 fun hnil ↦ hend ?_
        simp [Cursor.atEnd, hnil]
      obtain ⟨s, d, d', hs, hs', hd, hle⟩ := declaration_proceeds hg hn hc (by omega)
      rw [bind_of_ok hs, bind_of_ok hs']
      have hrest := Proceeds.bind (ih (by omega) (by omega) (by omega : n' ≤ m'))
        (fun rest ↦ .pure (s.toList ++ rest)) d d' hd (by omega)
      exact hrest.mono (by omega) (by omega)

/-- A block reads at least its closing brace. -/
theorem proceeds_blockHere : Parse.Proceeds I (n + 1) 1 (blockHere g) (blockHere g') :=
  .bind (proceeds_declarationsFrom hg hn (Nat.le_refl _) hg.rounds hg.rounds') fun _ ↦
    .bindRead (advances_expect _ _) fun _ ↦ .pure _

/-! ### Levels of nesting -/

/-- **One more level of nesting is good before one more token.** -/
theorem Proceeds.above (hrounds : n + 1 < g.rounds) (hrounds' : n + 1 < g'.rounds) :
    g.above.Proceeds I (n + 1) g'.above where
  rounds := hrounds
  rounds' := hrounds'
  unary := proceeds_unaryHere hg
  ternary := proceeds_ternaryHere hg
  assignment := proceeds_assignmentHere hg
  expression := proceeds_expressionHere hg
  statement := proceeds_statementHere hg hn
  block := proceeds_blockHere hg hn

omit hg hn in
/-- At the end of the input the program ends. -/
theorem programFrom_of_nil (n : Nat) {c : Cursor} (h : c.rest = []) :
    g.programFrom (n + 1) c = .ok [] c := by
  show ((if c.atEnd then pure [] else
    (do let s ← declaration g; return s.toList ++ (← programFrom g n)) : Parse _) c) = _
  simp only [Cursor.atEnd, h, List.isEmpty_nil, if_true]
  rfl

omit hg hn in
/-- Before that, a declaration is read, and then the rest. -/
theorem programFrom_of_ne_nil (n : Nat) {c : Cursor} (h : c.rest ≠ []) :
    g.programFrom (n + 1) c =
      (do let s ← declaration g; return s.toList ++ (← programFrom g n) : Parse _) c := by
  show ((if c.atEnd then pure [] else
    (do let s ← declaration g; return s.toList ++ (← programFrom g n)) : Parse _) c) = _
  simp [Cursor.atEnd, h]

omit hg hn in
/-- A declaration and the program behind it. -/
theorem programFrom_declaration (n : Nat) {c c₁ c₂ : Cursor} {s : Option Stmt} {rest : Program}
    (hne : c.rest ≠ []) (hs : declaration g c = .ok s c₁)
    (hrest : g.programFrom n c₁ = .ok rest c₂) :
    g.programFrom (n + 1) c = .ok (s.toList ++ rest) c₂ := by
  rw [programFrom_of_ne_nil n hne, bind_of_ok hs, bind_of_ok hrest]
  rfl

/-- **The declarations of a program are read to the end of the input.** -/
theorem programFrom_proceeds {c c' : Cursor} (hc : c.Beside I c') (hlt : c.rest.length < n + 1)
    (hm : c.rest.length < m) (hm' : c.rest.length < m') :
    ∃ program d d', g.programFrom m c = .ok program d ∧ g'.programFrom m' c' = .ok program d' ∧
      d.Beside I d' ∧ d.rest = [] := by
  induction m generalizing m' c c' with
  | zero => omega
  | succ m ih =>
    obtain _ | m' := m'
    · omega
    by_cases hnil : c.rest = []
    · exact ⟨[], c, c', programFrom_of_nil m hnil, programFrom_of_nil m' (hc.rest ▸ hnil), hc, hnil⟩
    · have hpos := List.length_pos_iff.2 hnil
      obtain ⟨s, d, d', hs, hs', hd, hle⟩ := declaration_proceeds hg hn hc hlt
      have hlen := congrArg List.length hd.rest
      obtain ⟨rest, e, e', hrest, hrest', he, hend⟩ :=
        ih hd (by omega) (by omega) (by omega : d.rest.length < m')
      exact ⟨s.toList ++ rest, e, e', programFrom_declaration m hnil hs hrest,
        programFrom_declaration m' (hc.rest ▸ hnil) hs' hrest', he, hend⟩

end Nested

end Grammar

/-! ### Checks at every level -/

open Classical in
/-- The parser, which gives up where it starts or ends outside of the input. -/
noncomputable def Parse.checked {α : Type} (I : Input) (p : Parse α) : Parse α := fun c ↦
  if c.StandsIn I then
    match p c with
    | .ok a d => if d.StandsIn I then .ok a d else .error .exhausted d
    | .error e d => if d.StandsIn I then .error e d else .error .exhausted d
  else .error .exhausted c

/-- If the one run is checked for leaving the input, it still comes to the same end. -/
theorem Parse.Proceeds.checked {α : Type} {I : Input} {n k : Nat} {p p' : Parse α}
    (h : Proceeds I n k p p') : Proceeds I n k p (p'.checked I) := by
  intro c c' hc hlt
  have houtcome := h c c' hc hlt
  unfold Parse.checked
  rw [if_pos hc.right]
  generalize p c = r at houtcome ⊢
  generalize p' c' = r' at houtcome ⊢
  cases houtcome with
  | ok hd hk =>
    simp only [if_pos hd.right]
    exact .ok hd hk
  | error hd hk he =>
    simp only [if_pos hd.right]
    exact .error hd hk he

namespace Grammar

/-- The grammar with a check around every nested parser. -/
noncomputable def checked (I : Input) (g : Grammar) : Grammar where
  rounds := g.rounds
  unary := g.unary.checked I
  ternary := g.ternary.checked I
  assignment := g.assignment.checked I
  expression := g.expression.checked I
  statement := g.statement.checked I
  block := g.block.checked I

/-- Checks may be put around all that is nested. -/
theorem Proceeds.checked {I : Input} {n : Nat} {g g' : Grammar} (h : g.Proceeds I n g') :
    g.Proceeds I n (g'.checked I) where
  rounds := h.rounds
  rounds' := h.rounds'
  unary := h.unary.checked
  ternary := h.ternary.checked
  assignment := h.assignment.checked
  expression := h.expression.checked
  statement := h.statement.checked
  block := h.block.checked

/-- The parsers for so many levels of nesting, with checks at every level. -/
noncomputable def checkedDepth (I : Input) (rounds : Nat) : Nat → Grammar
  | 0 => bottom rounds
  | n + 1 => (above (checkedDepth I rounds n)).checked I

/-- Checks leave the bounds of the loops as they are. -/
theorem rounds_checkedDepth (I : Input) (rounds n : Nat) :
    (checkedDepth I rounds n).rounds = rounds := by
  induction n with
  | zero => rfl
  | succ n ih => exact ih

/-- The parsers for so many levels of nesting, without checks and with them. -/
noncomputable def eitherDepth (I : Input) (rounds depth : Nat) : List Grammar :=
  [ofDepth rounds depth, checkedDepth I rounds depth]

variable {I : Input} {rounds rounds' n : Nat}

/-- **So many levels of nesting are good before so many tokens**, with checks and without. -/
theorem proceeds_ofDepth {depth depth' : Nat} (hrounds : n < rounds) (hrounds' : n < rounds')
    (hdepth : n ≤ depth) (hdepth' : n ≤ depth') (hn : n ≤ I.tokens.length) :
    ∀ g ∈ eitherDepth I rounds' depth', (ofDepth rounds depth).Proceeds I n g := by
  simp only [eitherDepth, List.forall_mem_cons, List.not_mem_nil, false_implies, implies_true,
    and_true]
  induction n generalizing depth depth' with
  | zero =>
    have hbelow {g g' : Grammar} (hg : g.rounds = rounds) (hg' : g'.rounds = rounds') :
        g.Proceeds I 0 g' :=
      ⟨hg ▸ hrounds, hg' ▸ hrounds', .zero, .zero, .zero, .zero, .zero, .zero⟩
    exact ⟨hbelow (rounds_ofDepth _ _) (rounds_ofDepth _ _),
      hbelow (rounds_ofDepth _ _) (rounds_checkedDepth _ _ _)⟩
  | succ n ih =>
    obtain _ | depth := depth
    · omega
    obtain _ | depth' := depth'
    · omega
    obtain ⟨hplain, hchecked⟩ := ih (by omega) (by omega) (by omega : n ≤ depth)
      (by omega : n ≤ depth') (by omega)
    refine ⟨hplain.above (by omega) ?_ ?_, (hchecked.above (by omega) ?_ ?_).checked⟩
    all_goals simpa only [rounds_ofDepth, rounds_checkedDepth]

end Grammar

/-! ### Whole programs -/

namespace Program

/-- **Every list of tokens is parsed within its bounds.** There are one program and one list of
errors, at tokens of the input, that decide the result. All larger bounds on nesting and on loops
lead to them, whatever stands before the first token, also when every nested parser checks that it
starts and ends in the input; and the cursor ends at the end. On the way every declaration, wherever
in the input it begins, ends in the input, and further on unless it began at the end. -/
theorem parse_within (I : Input) :
    ∃ program errors,
      parse I.tokens I.eof = (if errors = [] then .ok program else .error errors) ∧
      (∀ e ∈ errors, e.token ∈ I.all) ∧
      (∀ rounds depth m before, I.tokens.length < rounds → I.tokens.length ≤ depth →
        I.tokens.length < m → ∀ g ∈ Grammar.eitherDepth I rounds depth,
          ∃ d, g.programFrom m ⟨I.tokens, I.eof, before, #[]⟩ = .ok program d ∧
            d.StandsIn I ∧ d.rest = [] ∧ d.errors.toList = errors) ∧
      ∀ c : Cursor, c.StandsIn I → I.all[I.tokens.length - c.rest.length]? = some c.peek ∧
        ∃ s, ∀ rounds depth, c.rest.length < rounds → c.rest.length ≤ depth →
          ∀ g ∈ Grammar.eitherDepth I rounds depth, ∃ d, g.declaration c = .ok s d ∧
            d.StandsIn I ∧ (c.rest ≠ [] → d.rest.length < c.rest.length) := by
  -- All runs are compared with one, that with the smallest bounds.
  have hrun (rounds depth m : Nat) (before : Option Token) (hrounds : I.tokens.length < rounds)
      (hdepth : I.tokens.length ≤ depth) (hm : I.tokens.length < m) (g : Grammar)
      (hg : g ∈ Grammar.eitherDepth I rounds depth) :=
    Grammar.programFrom_proceeds (Grammar.proceeds_ofDepth (I := I) (Nat.lt_succ_self _) hrounds
      (Nat.le_succ _) hdepth (Nat.le_refl _) g hg) (Nat.le_refl _)
      ⟨.start I none, .start I before, rfl, rfl⟩ (Nat.lt_succ_self _) (Nat.lt_succ_self _) hm
  obtain ⟨program, d, d', hd, -, hbeside, -⟩ := hrun _ _ _ none (Nat.lt_succ_self _)
    (Nat.le_succ _) (Nat.lt_succ_self _) _ List.mem_cons_self
  refine ⟨program, d.errors.toList, ?_, fun e he ↦ ?_, ?_, fun c hc ↦ ⟨hc.getElem?_all, ?_⟩⟩
  · simp only [parse, hd, Array.isEmpty_iff, Array.toList_eq_nil_iff]
  · exact hbeside.left.errors e (Array.mem_toList_iff.1 he)
  · intro rounds depth m before hrounds hdepth hm g hg
    obtain ⟨program', d', e, hd', he, hbeside, hend⟩ :=
      hrun rounds depth m before hrounds hdepth hm g hg
    cases hd.symm.trans hd'
    exact ⟨e, he, hbeside.right, hbeside.rest ▸ hend, congrArg _ hbeside.errors.symm⟩
  · have hstep (rounds depth : Nat) (hrounds : c.rest.length < rounds)
        (hdepth : c.rest.length ≤ depth) (g : Grammar)
        (hg : g ∈ Grammar.eitherDepth I rounds depth) :=
      Grammar.declaration_proceeds (Grammar.proceeds_ofDepth (I := I) (Nat.lt_succ_self _) hrounds
        (Nat.le_succ _) hdepth hc.length_le g hg) hc.length_le ⟨hc, hc, rfl, rfl⟩
        (Nat.lt_succ_self _)
    obtain ⟨s, d, -, hd, -⟩ := hstep _ _ (Nat.lt_succ_self _) (Nat.le_succ _) _ List.mem_cons_self
    refine ⟨s, fun rounds depth hrounds hdepth g hg ↦ ?_⟩
    obtain ⟨s', d', e, hd', he, hbeside, hle⟩ := hstep rounds depth hrounds hdepth g hg
    cases hd.symm.trans hd'
    refine ⟨e, he, hbeside.right, fun hne ↦ ?_⟩
    have hpos := List.length_pos_iff.2 hne
    rw [← hbeside.rest]
    omega

end Program

end AliasScript
