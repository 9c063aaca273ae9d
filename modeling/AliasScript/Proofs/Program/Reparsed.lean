import AliasScript.Program.Grammar
import AliasScript.Proofs.Program.Likeness
import AliasScript.Proofs.Simulation

/-!
# Parsing tokens that are alike

The grammar looks at the kinds of tokens and at the values of literals, and at nothing else of them.
So two lists of tokens that are alike, one by one, are read side by side: they give programs that
are alike, or errors of the same causes at tokens that are alike (`Program.parse_alike`).

Every parser is followed in turn, by the rules for actions side by side.
-/

namespace AliasScript

/-! ### Cursors and failures -/

/-- Errors of the same cause at tokens that are alike. -/
structure GrammarError.Alike (L : Likeness) (e e' : GrammarError) : Prop where
  token : L.mark e.token e'.token
  cause : e.cause = e'.cause

/-- Cursors before tokens that are alike. All of them may turn out to be uses of names. -/
structure Cursor.Alike (L : Likeness) (c c' : Cursor) : Prop where
  rest : List.Forall₂ L.use c.rest c'.rest
  eof : L.use c.eof c'.eof
  last : Option.Rel L.use c.last c'.last
  errors : List.Forall₂ (GrammarError.Alike L) c.errors.toList c'.errors.toList

/-- Failures for the same reason. -/
inductive ParseFailure.Alike (L : Likeness) : ParseFailure → ParseFailure → Prop
  | error {e e' : GrammarError} : e.Alike L e' → ParseFailure.Alike L (.error e) (.error e')
  | exhausted : ParseFailure.Alike L .exhausted .exhausted

namespace Cursor.Alike

variable {L : Likeness} {c c' : Cursor} (h : c.Alike L c')

include h

/-- Either nothing is left to be read, or a token is next that is alike. -/
theorem cases_rest : (c.rest = [] ∧ c'.rest = []) ∨ ∃ t t' rest rest', c.rest = t :: rest ∧
    c'.rest = t' :: rest' ∧ L.use t t' ∧ List.Forall₂ L.use rest rest' := by
  have hrest := h.rest
  generalize c.rest = rest at hrest
  generalize c'.rest = rest' at hrest
  cases hrest with
  | nil => exact .inl ⟨rfl, rfl⟩
  | cons ht hrest => exact .inr ⟨_, _, _, _, rfl, rfl, ht, hrest⟩

/-- The tokens that are next are alike, the one at the end of the input included. -/
theorem peek : L.use c.peek c'.peek := by
  unfold Cursor.peek
  rcases h.cases_rest with ⟨hnil, hnil'⟩ | ⟨t, t', rest, rest', hcons, hcons', ht, -⟩
  · rw [hnil, hnil']
    exact h.eof
  · rw [hcons, hcons']
    exact ht

/-- So both cursors are before the same kind of token. -/
theorem check_eq (kind : Kind) : c.check kind = c'.check kind := by
  unfold Cursor.check
  rcases h.cases_rest with ⟨hnil, hnil'⟩ | ⟨t, t', rest, rest', hcons, hcons', ht, -⟩
  · rw [hnil, hnil']
  · simp only [hcons, hcons', L.kind_eq (L.mark_of_use ht)]

/-- Both cursors come to the end together. -/
theorem atEnd_eq : c.atEnd = c'.atEnd := by
  unfold Cursor.atEnd
  rcases h.cases_rest with ⟨hnil, hnil'⟩ | ⟨t, t', rest, rest', hcons, hcons', -⟩
  · rw [hnil, hnil']
  · rw [hcons, hcons']
    rfl

/-- Both stand behind the same kind of token. -/
theorem after_eq (kind : Kind) : c.after kind = c'.after kind := by
  have hlast := h.last
  unfold Cursor.after
  generalize c.last = last at hlast
  generalize c'.last = last' at hlast
  cases hlast with
  | none => rfl
  | some ht => simp only [L.kind_eq (L.mark_of_use ht)]

/-- Reading one token on each side. -/
theorem advance : c.advance.Alike L c'.advance := by
  unfold Cursor.advance
  rcases h.cases_rest with ⟨hnil, hnil'⟩ | ⟨t, t', rest, rest', hcons, hcons', ht, hrest⟩
  · rw [hnil, hnil']
    exact h
  · rw [hcons, hcons']
    exact ⟨hrest, h.eof, .some ht, h.errors⟩

/-- Errors are recorded on both sides, each at its own token. -/
theorem record {t t' : Token} (ht : L.mark t t') (cause : GrammarCause) :
    (c.record t cause).Alike L (c'.record t' cause) := by
  refine ⟨h.rest, h.eof, h.last, ?_⟩
  simp only [Cursor.record, Array.toList_push]
  exact List.rel_append h.errors (.cons ⟨ht, rfl⟩ .nil)

omit h in
/-- Where a search for the next statement stops depends on kinds alone. -/
theorem skip {last last' : Token} (hlast : L.use last last') {rest rest' : List Token}
    (hrest : List.Forall₂ L.use rest rest') :
    L.use (Cursor.skip last rest).1 (Cursor.skip last' rest').1 ∧
      List.Forall₂ L.use (Cursor.skip last rest).2 (Cursor.skip last' rest').2 := by
  induction hrest generalizing last last' with
  | nil => exact ⟨hlast, .nil⟩
  | cons ht hrest ih =>
    simp only [Cursor.skip, L.kind_eq (L.mark_of_use hlast), L.kind_eq (L.mark_of_use ht)]
    split
    · exact ⟨hlast, .cons ht hrest⟩
    · exact ih ht

/-- After an error both cursors go on from the same place. -/
theorem synchronize : c.synchronize.Alike L c'.synchronize := by
  unfold Cursor.synchronize
  rcases h.cases_rest with ⟨hnil, hnil'⟩ | ⟨t, t', rest, rest', hcons, hcons', ht, hrest⟩
  · rw [hnil, hnil']
    exact h
  · rw [hcons, hcons']
    obtain ⟨hlast, hskipped⟩ := skip ht hrest
    exact ⟨hskipped, h.eof, .some hlast, h.errors⟩

end Cursor.Alike

/-! ### The first parsers -/

/-- Parsers that do the same before tokens that are alike. -/
abbrev Parse.Alike {α : Type} (L : Likeness) (A : α → α → Prop) (p p' : Parse α) : Prop :=
  Simulates (Cursor.Alike L) (ParseFailure.Alike L) A p p'

namespace Parse

variable {L : Likeness} {α : Type} {A : α → α → Prop}

theorem alike_exhausted : Alike L A exhausted exhausted :=
  .throw .exhausted

/-- An error is reported at the token that is next on each side. -/
theorem alike_failHere (cause : GrammarCause) : Alike L A (failHere cause) (failHere cause) :=
  .bind .get fun _ _ hc ↦ .throw (.error ⟨L.mark_of_use hc.peek, rfl⟩)

theorem alike_record {t t' : Token} (ht : L.mark t t') (cause : GrammarCause) :
    Alike L Eq (record t cause) (record t' cause) :=
  .modified fun _ _ hc ↦ hc.record ht cause

/-- A test of the next kind gives the same answer. -/
theorem alike_check (kind : Kind) : Alike L Eq (check kind) (check kind) :=
  .bind .get fun _ _ hc ↦ .pure (hc.check_eq kind)

theorem alike_atEnd : Alike L Eq atEnd atEnd :=
  .bind .get fun _ _ hc ↦ .pure hc.atEnd_eq

/-- A token is accepted on both sides, or on neither. -/
theorem alike_acceptIf (test : Kind → Bool) :
    Alike L (Option.Rel L.use) (acceptIf test) (acceptIf test) := by
  refine .bind .get fun c c' hc ↦ ?_
  rcases hc.cases_rest with ⟨hnil, hnil'⟩ | ⟨t, t', rest, rest', hcons, hcons', ht, -⟩
  · rw [hnil, hnil']
    exact .pure .none
  · rw [hcons, hcons']
    simp only [L.kind_eq (L.mark_of_use ht)]
    split
    · exact .bind (.modified fun _ _ hc ↦ hc.advance) fun _ _ _ ↦ .pure (.some ht)
    · exact .pure .none

theorem alike_accept (kind : Kind) : Alike L (Option.Rel L.use) (accept kind) (accept kind) :=
  alike_acceptIf _

/-- A token that is required is there on both sides, or is missing with the same cause. -/
theorem alike_expect (kind : Kind) (cause : GrammarCause) :
    Alike L L.use (expect kind cause) (expect kind cause) := by
  refine .bind (alike_accept kind) fun t t' ht ↦ ?_
  cases ht with
  | none => exact alike_failHere cause
  | some ht => exact .pure ht

/-- A separator, or else what may stand in its place. -/
theorem alike_terminator (cause : GrammarCause) :
    Alike L Eq (terminator cause) (terminator cause) := by
  refine .bind (alike_accept _) fun t t' ht ↦ ?_
  cases ht with
  | some ht => exact .pure rfl
  | none =>
    refine .bind .get fun c c' hc ↦ ?_
    rw [hc.check_eq, hc.check_eq, hc.atEnd_eq, hc.after_eq]
    exact .ite (fun _ ↦ .pure rfl) fun _ ↦ alike_failHere cause

/-- **Errors inside of a statement are recovered from alike**: they are recorded, and the parser
goes on from tokens that are alike. -/
theorem alike_recovering {p p' : Parse Stmt} (h : Alike L (Stmt.Alike L) p p') :
    Alike L (Option.Rel (Stmt.Alike L)) (recovering p) (recovering p') := by
  intro c c' hc
  have hmatches := h c c' hc
  unfold recovering
  cases hp : p c <;> cases hp' : p' c' <;> rw [hp, hp'] at hmatches <;> cases hmatches
  · next hs hc => exact .ok (.some hs) hc
  · next he hc =>
    cases he with
    | exhausted => exact .error .exhausted hc
    | error he =>
      refine .ok .none (Cursor.Alike.synchronize ?_)
      rw [he.cause]
      exact hc.record he.token _

end Parse

/-! ### Expressions -/

namespace Grammar

open Parse

/-- The parsers for what is nested inside do the same before tokens that are alike. -/
structure Respects (L : Likeness) (g : Grammar) : Prop where
  unary : Alike L (Expr.Alike L) g.unary g.unary
  ternary : Alike L (Expr.Alike L) g.ternary g.ternary
  assignment : Alike L (Expr.Alike L) g.assignment g.assignment
  expression : Alike L (Expr.Alike L) g.expression g.expression
  statement : Alike L (Stmt.Alike L) g.statement g.statement
  block : Alike L (List.Forall₂ (Stmt.Alike L)) g.block g.block

/-- Operators of the level make expressions that are alike of such. -/
def Level.Respects (L : Likeness) (level : Level) : Prop :=
  ∀ {left left' right right' : Expr} {operator operator' : Token}, left.Alike L left' →
    L.mark operator operator' → right.Alike L right' →
    (level.node left operator right).Alike L (level.node left' operator' right')

variable {L : Likeness}

/-- The operators of every level are chosen by their kinds. -/
theorem levels_respect {level : Level} (h : level ∈ levels) : level.Respects L := by
  simp only [levels, List.mem_cons, List.not_mem_nil, or_false] at h
  rcases h with rfl | rfl | rfl | rfl | rfl | rfl
  · exact .logical
  · exact .logical
  all_goals exact .binary

/-- Operators are read one after the other, and trees that are alike grow alike. -/
theorem alike_chainFrom {level : Level} (hlevel : level.Respects L) {operand : Parse Expr}
    (hoperand : Alike L (Expr.Alike L) operand operand) (n : Nat) {left left' : Expr}
    (hleft : left.Alike L left') :
    Alike L (Expr.Alike L) (chainFrom level operand n left) (chainFrom level operand n left') := by
  induction n generalizing left left' with
  | zero => exact alike_exhausted
  | succ n ih =>
    refine .bind (alike_acceptIf _) fun t t' ht ↦ ?_
    cases ht with
    | none => exact .pure hleft
    | some ht =>
      exact .bind hoperand fun _ _ hright ↦ ih (hlevel hleft (L.mark_of_use ht) hright)

/-- An operand with all the operators of a level behind it. -/
theorem alike_chain {level : Level} (hlevel : level.Respects L) {operand : Parse Expr}
    (hoperand : Alike L (Expr.Alike L) operand operand) (rounds : Nat) :
    Alike L (Expr.Alike L) (chain rounds level operand) (chain rounds level operand) :=
  .bind hoperand fun _ _ hleft ↦ alike_chainFrom hlevel hoperand rounds hleft

/-- From one level of operators to the next, up to the operands. -/
theorem alike_ladder {operand : Parse Expr} (hoperand : Alike L (Expr.Alike L) operand operand)
    (rounds : Nat) {ladder : List Level} (hladder : ∀ level ∈ ladder, level.Respects L) :
    Alike L (Expr.Alike L) (Grammar.ladder rounds operand ladder)
      (Grammar.ladder rounds operand ladder) := by
  induction ladder with
  | nil => exact hoperand
  | cons level tighter ih =>
    exact alike_chain (hladder level List.mem_cons_self)
      (ih fun level hlevel ↦ hladder level (List.mem_cons_of_mem _ hlevel)) rounds

/-- Too many items of a sequence are recorded in both. -/
theorem alike_recordIf {α : Type} {A : α → α → Prop} {p : Prop} {_ : Decidable p}
    {cause : GrammarCause} {k k' : Unit → Parse α} (h : Alike L A (k ()) (k' ())) :
    Alike L A (if p then (do let c ← get; let u ← Parse.record c.peek cause; k u) else k ())
      (if p then (do let c ← get; let u ← Parse.record c.peek cause; k' u) else k' ()) :=
  .ite (fun _ ↦ .bind .get fun _ _ hc ↦
    .bind (alike_record (L.mark_of_use hc.peek) cause) fun _ _ _ ↦ h) fun _ ↦ h

/-- Parameters are read up to the same number, and one too many is an error on both sides. -/
theorem alike_parametersFrom (n count : Nat) :
    Alike L (List.Forall₂ L.mark) (parametersFrom n count) (parametersFrom n count) := by
  induction n generalizing count with
  | zero => exact alike_exhausted
  | succ n ih =>
    unfold parametersFrom
    refine alike_recordIf ?_
    refine .bind (alike_expect _ _) fun _ _ hparameter ↦ .bind (alike_accept _) fun _ _ hcomma ↦ ?_
    cases hcomma with
    | none => exact .pure (.cons (L.mark_of_use hparameter) .nil)
    | some _ => exact .bind (ih _) fun _ _ hrest ↦ .pure (.cons (L.mark_of_use hparameter) hrest)

section Nested

variable {g : Grammar} (hg : g.Respects L)

/-- A list of parameters in its parentheses. -/
theorem alike_parameterList (opening : GrammarCause) :
    Alike L (List.Forall₂ L.mark) (parameterList g opening) (parameterList g opening) := by
  refine .bind (alike_expect _ _) fun _ _ _ ↦ .bindSame (alike_check _) fun closed ↦ ?_
  have hrest {ps ps' : List Token} (hps : List.Forall₂ L.mark ps ps') :
      Alike L (List.Forall₂ L.mark) (do let _ ← Parse.expect .rightParen .parametersEnd; pure ps)
        (do let _ ← Parse.expect .rightParen .parametersEnd; pure ps') :=
    .bind (alike_expect _ _) fun _ _ _ ↦ .pure hps
  exact .ite (fun _ ↦ .bind (.pure .nil) fun _ _ ↦ hrest)
    fun _ ↦ .bind (alike_parametersFrom _ _) fun _ _ ↦ hrest

include hg

theorem alike_functionBody (opening : GrammarCause) :
    Alike L (List.Forall₂ (Stmt.Alike L)) (functionBody g opening) (functionBody g opening) :=
  .bind (alike_expect _ _) fun _ _ _ ↦ hg.block

/-- A function with its parameters and its body. -/
theorem alike_functionFrom {name name' : Option Token} (hname : Option.Rel L.mark name name')
    (opening : GrammarCause) :
    Alike L (Function.Alike L) (functionFrom g name opening) (functionFrom g name' opening) :=
  .bind (alike_parameterList opening) fun _ _ hparameters ↦
    .bind (alike_functionBody hg _) fun _ _ hbody ↦ .pure (.mk hname (.some hparameters) hbody)

/-- A method has a list of parameters, or is a getter on both sides. -/
theorem alike_methodFrom {name name' : Token} (hname : L.mark name name') :
    Alike L (Function.Alike L) (methodFrom g name) (methodFrom g name') := by
  refine .bindSame (alike_check _) fun listed ↦ ?_
  have hrest {ps ps' : Option (List Token)} (hps : Option.Rel (List.Forall₂ L.mark) ps ps') :
      Alike L (Function.Alike L)
        (do let body ← functionBody g .methodBody; pure (.mk (some name) ps body))
        (do let body ← functionBody g .methodBody; pure (.mk (some name') ps' body)) :=
    .bind (alike_functionBody hg _) fun _ _ hbody ↦ .pure (.mk (.some hname) hps hbody)
  exact .ite (fun _ ↦ .bind (.map (alike_parameterList _) fun _ _ ↦ .some) fun _ _ ↦ hrest)
    fun _ ↦ .bind (.pure .none) fun _ _ ↦ hrest

/-- Elements of an array are read one after the other. -/
theorem alike_elementsFrom (n : Nat) :
    Alike L (List.Forall₂ (Expr.Alike L)) (elementsFrom g n) (elementsFrom g n) := by
  induction n with
  | zero => exact alike_exhausted
  | succ n ih =>
    refine .bind (alike_accept _) fun _ _ hbracket ↦ ?_
    cases hbracket with
    | some _ => exact .pure .nil
    | none =>
      refine .bindSame alike_atEnd fun ended ↦ ?_
      refine .ite (fun _ ↦ .bind (alike_failHere (A := Eq) _) fun _ _ _ ↦ ?_) fun _ ↦ ?_
      all_goals
        refine .bind hg.assignment fun _ _ helement ↦ .bindSame (alike_check _) fun closed ↦ ?_
        refine .ite (fun _ ↦ ?_) fun _ ↦ .bind (alike_expect _ _) fun _ _ _ ↦ ?_
        all_goals exact .bind ih fun _ _ hrest ↦ .pure (.cons helement hrest)

/-- Arguments are read one after the other, as many on both sides. -/
theorem alike_argumentsFrom (n count : Nat) :
    Alike L (List.Forall₂ (Expr.Alike L)) (argumentsFrom g n count) (argumentsFrom g n count) := by
  induction n generalizing count with
  | zero => exact alike_exhausted
  | succ n ih =>
    unfold argumentsFrom
    refine alike_recordIf ?_
    refine .bind hg.assignment fun _ _ hargument ↦ .bind (alike_accept _) fun _ _ hcomma ↦ ?_
    cases hcomma with
    | none => exact .pure (.cons hargument .nil)
    | some _ => exact .bind (ih _) fun _ _ hrest ↦ .pure (.cons hargument hrest)

theorem alike_callFrom {callee callee' : Expr} (hcallee : callee.Alike L callee') :
    Alike L (Expr.Alike L) (callFrom g callee) (callFrom g callee') := by
  refine .bindSame (alike_check _) fun closed ↦ ?_
  have hrest {es es' : List Expr} (hes : List.Forall₂ (Expr.Alike L) es es') :
      Alike L (Expr.Alike L)
        (do let paren ← Parse.expect .rightParen .argumentsEnd; pure (.call callee paren es))
        (do let paren ← Parse.expect .rightParen .argumentsEnd; pure (.call callee' paren es')) :=
    .bind (alike_expect _ _) fun _ _ hparen ↦ .pure (.call hcallee (L.mark_of_use hparen) hes)
  exact .ite (fun _ ↦ .bind (.pure .nil) fun _ _ ↦ hrest)
    fun _ ↦ .bind (alike_argumentsFrom hg _ _) fun _ _ ↦ hrest

/-- The kind of the first token decides which operand is read. -/
theorem alike_primaryFrom {t t' : Token} (ht : L.use t t') :
    Alike L (Expr.Alike L) (primaryFrom g t) (primaryFrom g t') := by
  have hmark := L.mark_of_use ht
  unfold primaryFrom
  rw [L.kind_eq hmark, L.value_eq hmark]
  split
  · exact .pure .literal
  · exact .pure .literal
  · exact .pure .literal
  · exact .pure .literal
  · exact .pure .literal
  · exact .map (alike_functionFrom hg .none _) fun _ _ ↦ .function
  · exact .map (alike_elementsFrom hg _) fun _ _ ↦ .array hmark
  · exact .bind hg.expression fun _ _ hinner ↦ .bind (alike_expect _ _) fun _ _ _ ↦
      .pure (.grouping hinner)
  · exact .pure (.variable ht)
  · exact .pure (.this ht)
  · exact .bind (alike_expect _ _) fun _ _ _ ↦ .bind (alike_expect _ _) fun _ _ hmethod ↦
      .pure (.super ht (L.mark_of_use hmethod))

/-- An operand that starts at the next token. -/
theorem alike_primary : Alike L (Expr.Alike L) (primary g) (primary g) := by
  refine .bind (alike_acceptIf _) fun _ _ ht ↦ ?_
  cases ht with
  | none => exact alike_failHere _
  | some ht => exact alike_primaryFrom hg ht

/-- Calls, subscripts and properties are read behind an operand, as many on both sides. -/
theorem alike_postfixFrom (n : Nat) {e e' : Expr} (he : e.Alike L e') :
    Alike L (Expr.Alike L) (postfixFrom g n e) (postfixFrom g n e') := by
  induction n generalizing e e' with
  | zero => exact alike_exhausted
  | succ n ih =>
    refine .bind (alike_acceptIf _) fun _ _ ht ↦ ?_
    cases ht with
    | none => exact .pure he
    | some ht =>
      simp only [L.kind_eq (L.mark_of_use ht)]
      split
      · exact .bind (alike_callFrom hg he) fun _ _ ↦ ih
      · exact .bind (alike_expect _ _) fun _ _ hname ↦ ih (.get he (L.mark_of_use hname))
      · exact .bind hg.assignment fun _ _ hindex ↦ .bind (alike_expect _ _) fun _ _ hbracket ↦
          ih (.subscript he (L.mark_of_use hbracket) hindex)

theorem alike_postfixExpr : Alike L (Expr.Alike L) (postfixExpr g) (postfixExpr g) :=
  .bind (alike_primary hg) fun _ _ ↦ alike_postfixFrom hg _

/-- An operator before its operand, or an alias of what is behind it. -/
theorem alike_unaryHere : Alike L (Expr.Alike L) (unaryHere g) (unaryHere g) := by
  refine .bind (alike_acceptIf _) fun _ _ ht ↦ ?_
  cases ht with
  | none => exact alike_postfixExpr hg
  | some ht =>
    have hmark := L.mark_of_use ht
    refine .bind hg.unary fun _ _ hoperand ↦ ?_
    simp only [L.kind_eq hmark, hoperand.isPlace_eq]
    refine .ite (fun _ ↦ .ite (fun _ ↦ .pure (.reference hmark hoperand)) fun _ ↦ ?_)
      fun _ ↦ .pure (.unary hmark hoperand)
    exact .bind (alike_record hmark _) fun _ _ _ ↦ .pure hoperand

theorem alike_operation : Alike L (Expr.Alike L) (operation g) (operation g) :=
  alike_ladder (alike_unaryHere hg) _ fun _ ↦ levels_respect

/-- The two branches of a conditional expression. -/
theorem alike_ternaryHere : Alike L (Expr.Alike L) (ternaryHere g) (ternaryHere g) := by
  refine .bind (alike_operation hg) fun _ _ hcondition ↦ .bind (alike_accept _) fun _ _ ht ↦ ?_
  cases ht with
  | none => exact .pure hcondition
  | some ht =>
    exact .bind (alike_operation hg) fun _ _ hwhenTrue ↦ .bind (alike_expect _ _) fun _ _ _ ↦
      .bind hg.ternary fun _ _ hwhenFalse ↦
        .pure (.ternary hcondition (L.mark_of_use ht) hwhenTrue hwhenFalse)

omit hg in
/-- Targets that are alike are both assigned to, or neither of them is. -/
theorem alike_assignment? {target target' value value' : Expr} (htarget : target.Alike L target')
    (hvalue : value.Alike L value') :
    Option.Rel (Expr.Alike L) (assignment? target value) (assignment? target' value') := by
  cases htarget with
  | «variable» hname => exact .some (.assign hname hvalue)
  | get hobject hname => exact .some (.set hobject hname hvalue)
  | subscript hobject hbracket hindex => exact .some (.setElement hobject hbracket hindex hvalue)
  | _ => exact .none

/-- An assignment, or an error at the sign if the target is none. -/
theorem alike_assignmentHere : Alike L (Expr.Alike L) (assignmentHere g) (assignmentHere g) := by
  refine .bind (alike_ternaryHere hg) fun target target' htarget ↦
    .bind (alike_accept _) fun _ _ ht ↦ ?_
  cases ht with
  | none => exact .pure htarget
  | some ht =>
    refine .bind hg.assignment fun value value' hvalue ↦ ?_
    have hassignment := alike_assignment? htarget hvalue
    generalize assignment? target value = found at hassignment
    generalize assignment? target' value' = found' at hassignment
    cases hassignment with
    | some he => exact .pure he
    | none => exact .bind (alike_record (L.mark_of_use ht) _) fun _ _ _ ↦ .pure htarget

theorem alike_expressionHere : Alike L (Expr.Alike L) (expressionHere g) (expressionHere g) :=
  alike_chain .binary (alike_assignmentHere hg) _

/-! ### Statements -/

/-- An expression with its separator. -/
theorem alike_expressionStatement :
    Alike L (Stmt.Alike L) (expressionStatement g) (expressionStatement g) :=
  .bind (alike_expressionHere hg) fun _ _ hvalue ↦ .bind (alike_terminator _) fun _ _ _ ↦
    .pure (.expression hvalue)

/-- A declaration of a variable, with an initial value or without. -/
theorem alike_varFrom : Alike L (Stmt.Alike L) (varFrom g) (varFrom g) := by
  refine .bind (alike_expect _ _) fun name name' hname ↦ .bind (alike_accept _) fun _ _ ht ↦ ?_
  have hrest {e e' : Option Expr} (he : Option.Rel (Expr.Alike L) e e') :
      Alike L (Stmt.Alike L) (do Parse.terminator .variableEnd; pure (.var name e))
        (do Parse.terminator .variableEnd; pure (.var name' e')) :=
    .bind (alike_terminator _) fun _ _ _ ↦ .pure (.var (L.mark_of_use hname) he)
  cases ht with
  | some _ => exact .bind (.map (alike_expressionHere hg) fun _ _ ↦ .some) fun _ _ ↦ hrest
  | none => exact .bind (.pure .none) fun _ _ ↦ hrest

/-- The branch behind `else` is there on both sides, or on neither. -/
theorem alike_ifFrom {keyword keyword' : Token} (hkeyword : L.mark keyword keyword') :
    Alike L (Stmt.Alike L) (ifFrom g keyword) (ifFrom g keyword') := by
  refine .bind (alike_expect _ _) fun _ _ _ ↦ .bind hg.expression fun _ _ hcondition ↦
    .bind (alike_expect _ _) fun _ _ _ ↦ .bind hg.statement fun _ _ hwhenTrue ↦
    .bind (alike_accept _) fun _ _ ht ↦ ?_
  cases ht with
  | some _ =>
    exact .bind hg.statement fun _ _ hwhenFalse ↦
      .pure (.ifElse hkeyword hcondition hwhenTrue (.some hwhenFalse))
  | none => exact .pure (.ifElse hkeyword hcondition hwhenTrue .none)

/-- A loop with its condition. -/
theorem alike_whileFrom {keyword keyword' : Token} (hkeyword : L.mark keyword keyword') :
    Alike L (Stmt.Alike L) (whileFrom g keyword) (whileFrom g keyword') :=
  .bind (alike_expect _ _) fun _ _ _ ↦ .bind hg.expression fun _ _ hcondition ↦
    .bind (alike_expect _ _) fun _ _ _ ↦ .bind hg.statement fun _ _ hbody ↦
    .pure (.loop hkeyword hcondition hbody)

/-- The first clause of a `for`, or none. -/
theorem alike_forInitial :
    Alike L (Option.Rel (Stmt.Alike L)) (forInitial g) (forInitial g) := by
  refine .bind (alike_accept _) fun _ _ ht ↦ ?_
  cases ht with
  | some _ => exact .pure .none
  | none =>
    refine .bind (alike_accept _) fun _ _ ht ↦ ?_
    cases ht with
    | some _ => exact .map (alike_varFrom hg) fun _ _ ↦ .some
    | none => exact .map (alike_expressionStatement hg) fun _ _ ↦ .some

omit hg in
/-- **A `for` stands for the same loop on both sides.** -/
theorem alike_desugarFor {keyword keyword' : Token} {initial initial' : Option Stmt}
    {condition condition' : Expr} {increment increment' : Option Expr} {body body' : Stmt}
    (hkeyword : L.mark keyword keyword') (hinitial : Option.Rel (Stmt.Alike L) initial initial')
    (hcondition : condition.Alike L condition')
    (hincrement : Option.Rel (Expr.Alike L) increment increment') (hbody : body.Alike L body') :
    (desugarFor keyword initial condition increment body).Alike L
      (desugarFor keyword' initial' condition' increment' body') := by
  cases hincrement with
  | some he =>
    have hloop := Stmt.Alike.loop hkeyword hcondition
      (.block (.cons hbody (.cons (.expression he) .nil)))
    cases hinitial with
    | some hs => exact .block (.cons hs (.cons hloop .nil))
    | none => exact hloop
  | none =>
    have hloop := Stmt.Alike.loop hkeyword hcondition hbody
    cases hinitial with
    | some hs => exact .block (.cons hs (.cons hloop .nil))
    | none => exact hloop

/-- The clauses of a `for` with its body. -/
theorem alike_forFrom {keyword keyword' : Token} (hkeyword : L.mark keyword keyword') :
    Alike L (Stmt.Alike L) (forFrom g keyword) (forFrom g keyword') := by
  refine .bind (alike_expect _ _) fun _ _ _ ↦ .bind (alike_forInitial hg) fun _ _ hinitial ↦
    .bindSame (alike_check _) fun absent ↦ ?_
  refine .ite (fun _ ↦ .bind (.pure (A := Expr.Alike L) .literal) fun _ _ hcondition ↦ ?_)
    fun _ ↦ .bind hg.expression fun _ _ hcondition ↦ ?_
  all_goals
    refine .bind (alike_expect _ _) fun _ _ _ ↦ .bindSame (alike_check _) fun closed ↦ ?_
    refine .ite (fun _ ↦ .bind (.pure (A := Option.Rel (Expr.Alike L)) .none) fun _ _ hlast ↦ ?_)
      fun _ ↦ .bind (.map (B := Option.Rel (Expr.Alike L)) hg.expression fun _ _ ↦ .some)
        fun _ _ hlast ↦ ?_
    all_goals
      exact .bind (alike_expect _ _) fun _ _ _ ↦ .bind hg.statement fun _ _ hbody ↦
        .pure (alike_desugarFor hkeyword hinitial hcondition hlast hbody)

/-- A return with its value, if the next token starts one. -/
theorem alike_returnFrom {keyword keyword' : Token} (hkeyword : L.mark keyword keyword') :
    Alike L (Stmt.Alike L) (returnFrom g keyword) (returnFrom g keyword') := by
  refine .bind .get fun c c' hc ↦ ?_
  have hrest {e e' : Option Expr} (he : Option.Rel (Expr.Alike L) e e') :
      Alike L (Stmt.Alike L) (do Parse.terminator .returnEnd; pure (.ret keyword e))
        (do Parse.terminator .returnEnd; pure (.ret keyword' e')) :=
    .bind (alike_terminator _) fun _ _ _ ↦ .pure (.ret hkeyword he)
  rw [hc.check_eq, hc.check_eq, hc.atEnd_eq]
  exact .ite (fun _ ↦ .bind (.pure .none) fun _ _ ↦ hrest)
    fun _ ↦ .bind (.map hg.expression fun _ _ ↦ .some) fun _ _ ↦ hrest

/-- An import with the name of its module. -/
theorem alike_importFrom {keyword keyword' : Token} (hkeyword : L.mark keyword keyword') :
    Alike L (Stmt.Alike L) (importFrom g keyword) (importFrom g keyword') :=
  .bind hg.expression fun _ _ hname ↦ .bind (alike_terminator _) fun _ _ _ ↦
    .pure (.importModule hkeyword hname)

/-- The kind of the first token decides which statement is read. -/
theorem alike_statementFrom {t t' : Token} (ht : L.mark t t') :
    Alike L (Stmt.Alike L) (statementFrom g t) (statementFrom g t') := by
  unfold statementFrom
  rw [L.kind_eq ht]
  split
  · exact alike_ifFrom hg ht
  · exact alike_returnFrom hg ht
  · exact alike_whileFrom hg ht
  · exact alike_forFrom hg ht
  · exact alike_importFrom hg ht
  · exact .map hg.block fun _ _ ↦ .block

theorem alike_statementHere : Alike L (Stmt.Alike L) (statementHere g) (statementHere g) := by
  refine .bind (alike_acceptIf _) fun _ _ ht ↦ ?_
  cases ht with
  | none => exact alike_expressionStatement hg
  | some ht => exact alike_statementFrom hg (L.mark_of_use ht)

/-! ### Declarations -/

/-- Methods and class methods are told apart by their keyword. -/
theorem alike_methodsFrom (n : Nat) :
    Alike L (fun ms ms' ↦ List.Forall₂ (Function.Alike L) ms.1 ms'.1 ∧
      List.Forall₂ (Function.Alike L) ms.2 ms'.2) (methodsFrom g n) (methodsFrom g n) := by
  induction n with
  | zero => exact alike_exhausted
  | succ n ih =>
    refine .bind .get fun c c' hc ↦ ?_
    rw [hc.check_eq, hc.atEnd_eq]
    refine .ite (fun _ ↦ .pure ⟨.nil, .nil⟩) fun _ ↦ .bind (alike_accept _) fun _ _ hofClass ↦
      .bind (alike_expect _ _) fun _ _ hname ↦
      .bind (alike_methodFrom hg (L.mark_of_use hname)) fun _ _ hmethod ↦
      .bind ih fun _ _ hrest ↦ ?_
    cases hofClass with
    | some _ => exact .pure ⟨hrest.1, .cons hmethod hrest.2⟩
    | none => exact .pure ⟨.cons hmethod hrest.1, hrest.2⟩

/-- The body of a class behind its name and its superclass. -/
theorem alike_classBody {name name' : Token} (hname : L.mark name name')
    {superclass superclass' : Option Token}
    (hsuperclass : Option.Rel L.use superclass superclass') :
    Alike L (Stmt.Alike L) (classBody g name superclass) (classBody g name' superclass') :=
  .bind (alike_expect _ _) fun _ _ _ ↦ .bind (alike_methodsFrom hg _) fun _ _ hmethods ↦
    .bind (alike_expect _ _) fun _ _ _ ↦
    .pure (.classDecl hname hsuperclass hmethods.1 hmethods.2)

/-- A class whose superclass may be a use of a name. -/
theorem alike_classFrom : Alike L (Stmt.Alike L) (classFrom g) (classFrom g) := by
  refine .bind (alike_expect _ _) fun _ _ hname ↦ .bind (alike_accept _) fun _ _ ht ↦ ?_
  cases ht with
  | some _ =>
    exact .bind (.map (alike_expect _ _) fun _ _ ↦ .some) fun _ _ hsuperclass ↦
      alike_classBody hg (L.mark_of_use hname) hsuperclass
  | none =>
    exact .bind (.pure .none) fun _ _ hsuperclass ↦
      alike_classBody hg (L.mark_of_use hname) hsuperclass

theorem alike_functionDeclarationFrom :
    Alike L (Stmt.Alike L) (functionDeclarationFrom g) (functionDeclarationFrom g) :=
  .bind (alike_expect _ _) fun _ _ hname ↦
    .bind (alike_functionFrom hg (.some (L.mark_of_use hname)) _) fun _ _ hf ↦
    .pure (.var (L.mark_of_use hname) (.some (.function hf)))

omit hg in
/-- A name behind the keyword makes a declaration of it, and its kind is the same. -/
theorem startsFunctionDeclaration_eq {rest rest' : List Token}
    (h : List.Forall₂ L.use rest rest') :
    startsFunctionDeclaration rest = startsFunctionDeclaration rest' := by
  cases h with
  | nil => rfl
  | cons ht hrest =>
    cases hrest with
    | nil => rfl
    | cons ht' _ =>
      simp only [startsFunctionDeclaration, L.kind_eq (L.mark_of_use ht),
        L.kind_eq (L.mark_of_use ht')]

/-- A declaration or a statement, as the first token says. -/
theorem alike_declare : Alike L (Stmt.Alike L) (declare g) (declare g) := by
  refine .bind (alike_accept _) fun _ _ ht ↦ ?_
  cases ht with
  | some _ => exact alike_classFrom hg
  | none =>
    refine .bind .get fun c c' hc ↦ ?_
    rw [startsFunctionDeclaration_eq hc.rest]
    refine .ite (fun _ ↦ .bind (.modified fun _ _ hc ↦ hc.advance) fun _ _ _ ↦
      alike_functionDeclarationFrom hg) fun _ ↦ .bind (alike_accept _) fun _ _ ht ↦ ?_
    cases ht with
    | some _ => exact alike_varFrom hg
    | none => exact alike_statementHere hg

/-- A declaration, or nothing after an error. -/
theorem alike_declaration :
    Alike L (Option.Rel (Stmt.Alike L)) (declaration g) (declaration g) :=
  alike_recovering (alike_declare hg)

omit hg in
/-- A statement that was read, or none, before those that follow. -/
theorem alike_toList_append {s s' : Option Stmt} (hs : Option.Rel (Stmt.Alike L) s s')
    {rest rest' : List Stmt} (hrest : List.Forall₂ (Stmt.Alike L) rest rest') :
    List.Forall₂ (Stmt.Alike L) (s.toList ++ rest) (s'.toList ++ rest') := by
  cases hs with
  | none => exact hrest
  | some hs => exact .cons hs hrest

/-- The declarations up to the end of a block. -/
theorem alike_declarationsFrom (n : Nat) :
    Alike L (List.Forall₂ (Stmt.Alike L)) (declarationsFrom g n) (declarationsFrom g n) := by
  induction n with
  | zero => exact alike_exhausted
  | succ n ih =>
    refine .bind .get fun c c' hc ↦ ?_
    rw [hc.check_eq, hc.atEnd_eq]
    exact .ite (fun _ ↦ .pure .nil) fun _ ↦ .bind (alike_declaration hg) fun _ _ hs ↦
      .bind ih fun _ _ hrest ↦ .pure (alike_toList_append hs hrest)

/-- A block with its closing brace. -/
theorem alike_blockHere :
    Alike L (List.Forall₂ (Stmt.Alike L)) (blockHere g) (blockHere g) :=
  .bind (alike_declarationsFrom hg _) fun _ _ hbody ↦ .bind (alike_expect _ _) fun _ _ _ ↦
    .pure hbody

/-! ### Programs -/

/-- What respects likeness on one level does so on the level above. -/
theorem Respects.above : g.above.Respects L :=
  ⟨alike_unaryHere hg, alike_ternaryHere hg, alike_assignmentHere hg, alike_expressionHere hg,
    alike_statementHere hg, alike_blockHere hg⟩

/-- The declarations up to the end of the input. -/
theorem alike_programFrom (n : Nat) :
    Alike L (List.Forall₂ (Stmt.Alike L)) (g.programFrom n) (g.programFrom n) := by
  induction n with
  | zero => exact alike_exhausted
  | succ n ih =>
    refine .bindSame alike_atEnd fun ended ↦ ?_
    exact .ite (fun _ ↦ .pure .nil) fun _ ↦ .bind (alike_declaration hg) fun _ _ hs ↦
      .bind ih fun _ _ hrest ↦ .pure (alike_toList_append hs hrest)

end Nested

/-- **All parsers respect likeness, to any depth of nesting.** -/
theorem respects_ofDepth (rounds n : Nat) : (ofDepth rounds n).Respects L := by
  induction n with
  | zero =>
    exact ⟨alike_exhausted, alike_exhausted, alike_exhausted, alike_exhausted, alike_exhausted,
      alike_exhausted⟩
  | succ n ih => exact ih.above

end Grammar

/-- Both are errors that are related, or both are results that are. -/
inductive Except.Both {ε α : Type} (E : ε → ε → Prop) (A : α → α → Prop) :
    Except ε α → Except ε α → Prop
  | error {e e' : ε} : E e e' → Except.Both E A (.error e) (.error e')
  | ok {a a' : α} : A a a' → Except.Both E A (.ok a) (.ok a')

/-- **Tokens that are alike are parsed alike.** -/
theorem Program.parse_alike {L : Likeness} {tokens tokens' : List Token} {eof eof' : Token}
    (htokens : List.Forall₂ L.use tokens tokens') (heof : L.use eof eof') :
    Except.Both (List.Forall₂ (GrammarError.Alike L)) (List.Forall₂ (Stmt.Alike L))
      (parse tokens eof) (parse tokens' eof') := by
  unfold parse
  rw [htokens.length_eq]
  have hmatches := Grammar.alike_programFrom (Grammar.respects_ofDepth (L := L)
    (tokens'.length + 1) (tokens'.length + 1)) (tokens'.length + 1) ⟨tokens, eof, none, #[]⟩
    ⟨tokens', eof', none, #[]⟩ ⟨htokens, heof, .none, .nil⟩
  dsimp only
  generalize (Grammar.ofDepth _ _).programFrom _ ⟨tokens, _, _, _⟩ = result at hmatches ⊢
  generalize (Grammar.ofDepth _ _).programFrom _ ⟨tokens', _, _, _⟩ = result' at hmatches ⊢
  cases hmatches with
  | error _ hc => exact .error hc.errors
  | ok hprogram hc =>
    have hempty := hc.errors.length_eq
    simp only [Array.length_toList] at hempty
    simp only [Array.isEmpty_iff_size_eq_zero, hempty]
    split
    · exact .ok hprogram
    · exact .error hc.errors

end AliasScript
