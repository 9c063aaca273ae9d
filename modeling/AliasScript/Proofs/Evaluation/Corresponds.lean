import AliasScript.Proofs.Machine.Correspondence
import AliasScript.Session

/-!
# Evaluation on machines that correspond

All clauses of the evaluator do the same on machines that correspond, one by one, if what is nested
inside does (`Evaluator.Alike`), and then so does the evaluator on any budget (`alike_evaluatorOf`).
A clause looks at a machine through what is the same in both, at a use of a name through its
distance, and at all other tokens only to report a fault.
-/

namespace AliasScript

variable {C : Correspondence}

open Run

/-! ### Clauses that do not use the evaluator -/

section Tokens

variable {t t' : Token} (ht : C.like.mark t t')

include ht

namespace Builtin

/-- The world is the same, and so it accepts the text in both or in neither. -/
theorem alike_writeOut (text : String) : Alike C Eq (writeOut t text) (writeOut t' text) := by
  refine .bindSame (alike_read fun m m' hm ↦ by rw [hm.world]) fun accepts ↦ ?_
  exact .ite (fun _ ↦ .bindSame (alike_changeWorld _) fun _ ↦ .pure rfl)
    fun _ ↦ alike_fault ht .same

omit ht in
/-- Lengths are the same, since arrays and texts are. -/
theorem alike_lengthOf (v : Value) : Alike C Eq (lengthOf v) (lengthOf v) := by
  unfold lengthOf
  split
  · exact .pure rfl
  · exact .bindSame (alike_elements _) fun _ ↦ .pure rfl
  · exact .pure rfl

/-- A shift that fails is reported at the one token or at the other. -/
theorem alike_shifted (shift : Int → Int → Int) (v w : Value) :
    Alike C Eq (shifted t shift v w) (shifted t' shift v w) := by
  unfold shifted
  split
  · exact .pure rfl
  · exact alike_fault ht .same

/-- Built-in functions look at texts, at lengths and at the world. -/
theorem alike_call (b : Builtin) (arguments : List Value) :
    Alike C Eq (b.call t arguments) (b.call t' arguments) := by
  unfold call
  split
  · exact .bindSame (alike_text _) fun _ ↦ alike_writeOut ht _
  · exact .bindSame (alike_text _) fun _ ↦ alike_writeOut ht _
  · refine .bindSame (alike_onWorld _) fun line ↦ ?_
    split <;> exact .pure rfl
  · exact alike_onWorld _
  · exact .bindSame (alike_text _) fun _ ↦ .pure rfl
  · refine .bindSame (alike_text _) fun text ↦ ?_
    split <;> exact .pure rfl
  · exact .pure rfl
  · exact alike_fault ht .same
  · exact alike_lengthOf _
  · refine .bindSame (alike_text _) fun path ↦ .bindSame (alike_onWorld _) fun text ↦ ?_
    split <;> exact .pure rfl
  · exact .bindSame (alike_text _) fun _ ↦ .bindSame (alike_text _) fun _ ↦
      .bindSame (alike_onWorld _) fun _ ↦ .pure rfl
  · exact .bindSame (alike_text _) fun _ ↦ .bindSame (alike_text _) fun _ ↦
      .bindSame (alike_onWorld _) fun _ ↦ .pure rfl
  · exact alike_shifted ht _ _ _
  · exact alike_shifted ht _ _ _
  · exact alike_breach _

end Builtin

namespace Evaluator

/-! #### Operators -/

/-- Both operands are numbers on both sides, or a fault is reported. -/
theorem alike_onNumbers (left right : Value) {f f' : Float → Float → Run Value}
    (hf : ∀ x y, Alike C Eq (f x y) (f' x y)) :
    Alike C Eq (onNumbers t left right f) (onNumbers t' left right f') := by
  unfold onNumbers
  split
  · exact hf _ _
  · exact alike_fault ht .same

/-- The sum has the same text, and a new array has the same number. -/
theorem alike_sum (left right : Value) : Alike C Eq (sum t left right) (sum t' left right) := by
  unfold sum
  split
  · exact .pure rfl
  · exact .pure rfl
  · exact .bindSame (alike_changeArray _ _) fun _ ↦ .pure rfl
  · exact alike_fault ht .same

/-- As many elements are dropped from the same array, or a fault is reported. -/
theorem alike_difference (left right : Value) :
    Alike C Eq (difference t left right) (difference t' left right) := by
  unfold difference
  split
  · exact .pure rfl
  · refine .bindSame (alike_elements _) fun elements ↦ ?_
    split
    · exact alike_newArray _
    · exact alike_fault ht .same
  · exact alike_fault ht .same

omit ht in
/-- Values are equal on one machine if they are on the other. -/
theorem alike_equal (left right : Value) :
    Alike C Eq (read (·.store.equal left right)) (read (·.store.equal left right)) :=
  alike_read fun _ _ hm ↦ hm.store.equal_eq left right

/-- The operator is known by its kind. -/
theorem alike_binary (left right : Value) :
    Alike C Eq (binary t left right) (binary t' left right) := by
  unfold binary
  rw [C.like.kind_eq ht]
  split
  · exact .pure rfl
  · exact alike_sum ht left right
  · exact alike_difference ht left right
  · exact alike_onNumbers ht _ _ fun _ _ ↦ .pure rfl
  · exact alike_onNumbers ht _ _ fun x y ↦
      .ite (fun _ ↦ alike_fault ht .same) fun _ ↦ .pure rfl
  · exact alike_onNumbers ht _ _ fun _ _ ↦ .pure rfl
  · exact alike_onNumbers ht _ _ fun _ _ ↦ .pure rfl
  · exact alike_onNumbers ht _ _ fun _ _ ↦ .pure rfl
  · exact alike_onNumbers ht _ _ fun _ _ ↦ .pure rfl
  · exact alike_onNumbers ht _ _ fun _ _ ↦ .pure rfl
  · exact .bindSame (alike_equal left right) fun _ ↦ .pure rfl
  · exact .bindSame (alike_equal left right) fun _ ↦ .pure rfl
  · exact alike_breach _

/-- Similarly for operators with one operand. -/
theorem alike_unary (v : Value) : Alike C Eq (unary t v) (unary t' v) := by
  unfold unary
  rw [C.like.kind_eq ht]
  split
  · exact .pure rfl
  · exact alike_fault ht .same
  · exact .pure rfl
  · exact alike_breach _

/-! #### Places -/

omit ht in
/-- A method is bound in a frame that gets the same number on both sides. -/
theorem alike_bindMethod {method method' : Closure} (hmethod : method.Alike C.like method')
    (receiver : Value) (isInitializer : Bool) :
    Alike C (Closure.Alike C.like) (bindMethod method receiver isInitializer)
      (bindMethod method' receiver isInitializer) := by
  unfold bindMethod
  rw [hmethod.frame]
  exact .bindSame (alike_newFrame _ _) fun _ ↦ .pure ⟨hmethod.declaration, rfl, rfl⟩

/-- The same instance or class gets the same value. -/
theorem alike_setProperty (v value : Value) :
    Alike C Eq (setProperty v t value) (setProperty v t' value) := by
  unfold setProperty
  rw [C.like.lexeme_eq ht]
  split
  · exact alike_changeStore fun _ _ hs ↦ hs.changeObject _ _
  · exact alike_changeStore fun _ _ hs ↦ hs.setClassField _ _ _
  · exact alike_fault ht .same

/-- The same place in the same array, or a fault for the same reason. -/
theorem alike_position (v index : Value) :
    Alike C Eq (position t v index) (position t' v index) := by
  unfold position
  split
  · refine .bindSame (alike_elements _) fun elements ↦ ?_
    split
    · dsimp only
      split
      · exact .pure rfl
      · exact alike_fault ht .same
    · exact alike_fault ht .same
  · exact alike_fault ht .same

/-- The element that stands there. -/
theorem alike_element (v index : Value) :
    Alike C Eq (element t v index) (element t' v index) :=
  .bindSame (alike_position ht v index) fun _ ↦ .bindSame (alike_elements _) fun _ ↦
    alike_require (option_rel_self fun _ _ ↦ rfl) _

/-- The element is changed in both. -/
theorem alike_setElement (v index value : Value) :
    Alike C Eq (setElement t v index value) (setElement t' v index value) :=
  .bindSame (alike_position ht v index) fun _ ↦ alike_changeArray _ _

omit ht in
/-- The natives of a module are added to both stores, with the same numbers. -/
theorem alike_bitwise : Alike C Eq bitwise bitwise := by
  refine .bindSame (alike_onStore fun _ _ hs ↦ hs.addClass ⟨rfl, rfl, fun _ ↦ .none, rfl, rfl⟩)
    fun classId ↦ .bindSame (alike_onStore fun _ _ hs ↦ hs.addBuiltin _) fun left ↦
    .bindSame (alike_onStore fun _ _ hs ↦ hs.addBuiltin _) fun right ↦
    .bindSame (alike_onStore fun _ _ hs ↦ hs.addObject _) fun object ↦ .pure rfl

end Evaluator

end Tokens

/-! ### Clauses that use the evaluator -/

/-- What is nested inside does the same on machines that correspond. -/
structure Evaluator.Alike (C : Correspondence) (r r' : Evaluator) : Prop where
  rounds : r.rounds = r'.rounds
  raw : ∀ {e e' : Expr}, e.Alike C.like e' → Run.Alike C Eq (r.raw e) (r'.raw e')
  execute : ∀ {s s' : Stmt}, s.Alike C.like s' → Run.Alike C Eq (r.execute s) (r'.execute s')
  apply : ∀ {paren paren' : Token} {callee callee' : Callee}, C.like.mark paren paren' →
    callee.Alike C.like callee' → ∀ arguments : List Value,
    Run.Alike C Eq (r.apply paren callee arguments) (r'.apply paren' callee' arguments)

namespace Evaluator.Alike

variable {r r' : Evaluator} (h : r.Alike C r')

include h

/-! #### Aliases and calls -/

omit h in
/-- The aliases with one number refer to targets that are alike. -/
theorem alike_reference (id : Nat) :
    Run.Alike C (Option.Rel (Reference.Alike C.like)) (read (·.store.references[id]?))
      (read (·.store.references[id]?)) :=
  alike_read fun _ _ hm ↦ hm.store.references id

/-- **Chains of aliases are followed side by side**, one reference at a time. -/
theorem followWithin (hops : Nat) (v : Value) :
    Run.Alike C Eq (r.followWithin hops v) (r'.followWithin hops v) := by
  induction hops generalizing v with
  | zero =>
    unfold Evaluator.followWithin
    split
    · exact .bind (alike_reference _) fun _ _ href ↦ .bind (alike_require href _) fun _ _ href ↦
        alike_fault href.operator .same
    · exact .pure rfl
  | succ hops ih =>
    unfold Evaluator.followWithin
    split
    · refine .bind (alike_reference _) fun _ _ href ↦ .bind (alike_require href _) fun _ _ href ↦ ?_
      dsimp only
      rw [href.frame]
      exact .bindSame (alike_inFrame (h.raw href.target) _) ih
    · exact .pure rfl

/-- An expression that is nested inside, and the chain of aliases behind its value. -/
theorem evaluate {e e' : Expr} (he : e.Alike C.like e') :
    Run.Alike C Eq (r.evaluate e) (r'.evaluate e') :=
  .bindSame (h.raw he) (h.followWithin maxHops)

theorem evaluateAll {es es' : List Expr} (hes : List.Forall₂ (Expr.Alike C.like) es es') :
    Run.Alike C Eq (r.evaluateAll es) (r'.evaluateAll es') := by
  induction hes with
  | nil => exact .pure rfl
  | cons he _ ih => exact .bindSame (h.evaluate he) fun _ ↦ .bindSame ih fun _ ↦ .pure rfl

/-- The first statement that does not end in the ordinary way is the same. -/
theorem executeAll {ss ss' : List Stmt} (hss : List.Forall₂ (Stmt.Alike C.like) ss ss') :
    Run.Alike C Eq (r.executeAll ss) (r'.executeAll ss') := by
  induction hss with
  | nil => exact .pure rfl
  | cons hs _ ih =>
    refine .bindSame (h.execute hs) fun flow ↦ ?_
    cases flow with
    | normal => exact ih
    | returned v => exact .pure rfl

/-- Arguments are bound to names that are the same, so the frames are. -/
theorem callFunction {c c' : Closure} (hc : c.Alike C.like c') (arguments : List Value) :
    Run.Alike C Eq (r.callFunction c arguments) (r'.callFunction c' arguments) := by
  unfold Evaluator.callFunction
  rw [hc.declaration.lexemes_eq, hc.frame, hc.isInitializer]
  refine .bindSame (alike_newFrame _ _) fun frame ↦
    .bindSame (alike_inFrame (h.executeAll hc.declaration.body) frame) fun flow ↦ .ite (fun _ ↦ ?_)
      fun _ ↦ ?_
  · exact .bindSame (alike_read fun _ _ hm ↦ by rw [hm.store.frames]) fun _ ↦
      alike_require (option_rel_self fun _ _ ↦ rfl) _
  · split <;> exact .pure rfl

/-- The new instances have the same number. -/
theorem construct (id : ClassId) (arguments : List Value) :
    Run.Alike C Eq (r.construct id arguments) (r'.construct id arguments) := by
  refine .bindSame (alike_onStore fun _ _ hs ↦ hs.addObject _) fun object ↦
    .bind (alike_read fun _ _ hm ↦ hm.store.findMethod id "init") fun _ _ hfound ↦ ?_
  cases hfound with
  | none => exact .pure rfl
  | some hmethod =>
    exact .bind (alike_bindMethod hmethod _ _) fun _ _ hbound ↦
      .bindSame (h.callFunction hbound arguments) fun _ ↦ .pure rfl

/-- What is called alike is called with as many arguments, or is a fault on both sides. -/
theorem applyStep {paren paren' : Token} {callee callee' : Callee}
    (hparen : C.like.mark paren paren') (hcallee : callee.Alike C.like callee')
    (arguments : List Value) :
    Run.Alike C Eq (r.applyStep paren callee arguments)
      (r'.applyStep paren' callee' arguments) := by
  cases hcallee with
  | function hc => exact h.callFunction hc arguments
  | construct hc => exact h.construct _ arguments
  | builtin => exact Builtin.alike_call hparen _ arguments

/-- The bound on calls is met in both machines or in neither, since their depths are the same. -/
theorem invoke {paren paren' : Token} {callee callee' : Callee}
    (hparen : C.like.mark paren paren') (hcallee : callee.Alike C.like callee')
    (arguments : List Value) :
    Run.Alike C Eq (r.invoke paren callee arguments) (r'.invoke paren' callee' arguments) := by
  refine .bindSame (alike_read fun _ _ hm ↦ hm.depth) fun depth ↦
    .ite (fun _ ↦ alike_fault hparen .same) fun _ ↦ ?_
  rw [Store.Alike.calleeName_eq hcallee]
  exact .bindSame (alike_note .calling) fun _ ↦ alike_inCall (h.apply hparen hcallee arguments)

/-- The values are callable on both sides, or on neither. -/
theorem call {paren paren' : Token} (hparen : C.like.mark paren paren') (v : Value)
    (arguments : List Value) :
    Run.Alike C Eq (r.call paren v arguments) (r'.call paren' v arguments) := by
  refine .bind (alike_read fun _ _ hm ↦ hm.store.callee? v) fun _ _ hfound ↦ ?_
  cases hfound with
  | none => exact alike_fault hparen .same
  | some hcallee =>
    exact .bindSame (alike_read fun _ _ hm ↦ hm.store.calleeArity_eq hcallee) fun arity ↦
      .ite (fun _ ↦ h.invoke hparen hcallee arguments) fun _ ↦ alike_fault hparen .same

/-! #### Properties and variables -/

/-- A method is a getter on both sides, or on neither. -/
theorem methodValue {name name' : Token} (hname : C.like.mark name name') {c c' : Closure}
    (hc : c.Alike C.like c') : Run.Alike C Eq (r.methodValue name c) (r'.methodValue name' c') := by
  unfold Evaluator.methodValue
  rw [hc.declaration.isGetter_eq]
  exact .ite (fun _ ↦ h.invoke hname (.function hc) []) fun _ ↦ alike_newClosure hc

/-- A method is found on both sides, or is missing on both. -/
theorem bindFound {found found' : Option Closure}
    (hfound : Option.Rel (Closure.Alike C.like) found found') {name name' : Token}
    (hname : C.like.mark name name') (receiver : Value) (isInitializer : Bool) :
    Run.Alike C Eq (r.bindFound found name receiver isInitializer)
      (r'.bindFound found' name' receiver isInitializer) := by
  cases hfound with
  | none =>
    unfold Evaluator.bindFound
    rw [C.like.lexeme_eq hname]
    exact alike_fault hname .same
  | some hmethod =>
    exact .bind (alike_bindMethod hmethod _ _) fun _ _ hbound ↦ h.methodValue hname hbound

/-- A getter that stands in a field is called. -/
theorem fieldValue {name name' : Token} (hname : C.like.mark name name') (field : Value) :
    Run.Alike C Eq (r.fieldValue name field) (r'.fieldValue name' field) := by
  refine .bind (alike_read fun _ _ hm ↦ hm.store.getter? field) fun _ _ hfound ↦ ?_
  cases hfound with
  | none => exact .pure rfl
  | some hgetter => exact h.invoke hname (.function hgetter) []

/-- Fields are the same; only methods may differ, in the tokens of their declarations. -/
theorem fieldOrMethod (v : Value) {name name' : Token} (hname : C.like.mark name name')
    (field : Option Value) {found found' : Option Closure}
    (hfound : Option.Rel (Closure.Alike C.like) found found') (isInitializer : Bool) :
    Run.Alike C Eq (r.fieldOrMethod v name field found isInitializer)
      (r'.fieldOrMethod v name' field found' isInitializer) := by
  unfold Evaluator.fieldOrMethod
  split
  · exact h.fieldValue hname _
  · exact h.bindFound hfound hname v isInitializer

/-- The kind of the value decides where the property is looked for. -/
theorem property (v : Value) {name name' : Token} (hname : C.like.mark name name') :
    Run.Alike C Eq (r.property v name) (r'.property v name') := by
  have hlexeme := C.like.lexeme_eq hname
  unfold Evaluator.property
  split
  · rw [hlexeme]
    refine .bindSame (alike_read fun _ _ hm ↦ by rw [hm.store.objects]) fun found ↦
      .bindSame (alike_require (option_rel_self fun _ _ ↦ rfl) _) fun object ↦
      .bind (alike_read fun _ _ hm ↦ hm.store.findMethod object.classId _) fun _ _ hfound ↦ ?_
    exact h.fieldOrMethod _ hname _ hfound _
  · rw [hlexeme]
    refine .bind (alike_read fun _ _ hm ↦ hm.store.classes _) fun _ _ hclass ↦
      .bind (alike_require hclass _) fun _ _ hc ↦
      .bind (alike_read fun _ _ hm ↦ hm.store.findClassMethod _ _) fun _ _ hfound ↦ ?_
    rw [hc.fields]
    exact h.fieldOrMethod _ hname _ hfound _
  · exact alike_fault hname .same

/-- The superclass is at the same distance, since the keywords are alike as uses. -/
theorem superMethod {keyword keyword' method method' : Token}
    (hkeyword : C.like.use keyword keyword') (hmethod : C.like.mark method method') :
    Run.Alike C Eq (r.superMethod keyword method) (r'.superMethod keyword' method') := by
  refine .bindSame (alike_read fun _ _ hm ↦ hm.distances hkeyword) fun distance ↦ ?_
  split
  · refine .bindSame (alike_read fun _ _ hm ↦ by rw [hm.store.frames, hm.here]) fun superclass ↦ ?_
    split
    · refine .bindSame (alike_read fun _ _ hm ↦ by rw [hm.store.frames, hm.here]) fun found ↦
        .bindSame (alike_require (option_rel_self fun _ _ ↦ rfl) _) fun receiver ↦
        .bind (A := Option.Rel (Closure.Alike C.like)) (alike_read fun m m' hm ↦ ?_)
          fun _ _ hfound ↦ ?_
      · rw [C.like.lexeme_eq hmethod]
        split
        · exact hm.store.findClassMethod _ _
        · exact hm.store.findMethod _ _
      · rw [C.like.lexeme_eq hmethod]
        exact h.bindFound hfound hmethod receiver _
    · exact alike_breach _
  · exact alike_breach _

/-- The name that is written to is at the same distance, or its alias leads to one that is. -/
theorem storeWithin (hops : Nat) {name name' : Token} (hname : C.like.use name name')
    (value : Value) :
    Run.Alike C Eq (r.storeWithin hops name value) (r'.storeWithin hops name' value) := by
  induction hops generalizing name name' with
  | zero =>
    unfold Evaluator.storeWithin
    refine .bindSame (alike_lookup hname) fun v ↦ ?_
    split
    · exact .bind (alike_reference _) fun _ _ href ↦ .bind (alike_require href _) fun _ _ href ↦
        alike_fault href.operator .same
    · exact alike_overwrite hname value
  | succ hops ih =>
    unfold Evaluator.storeWithin
    refine .bindSame (alike_lookup hname) fun v ↦ ?_
    split
    · refine .bind (alike_reference _) fun _ _ href ↦
        .bind (alike_require href _) fun ref ref' href ↦ ?_
      dsimp only
      rw [href.frame]
      refine alike_inFrame ?_ _
      have htarget := href.target
      generalize ref.target = target at htarget
      generalize ref'.target = target' at htarget
      cases htarget with
      | «variable» hname => exact ih hname
      | get hobject hfield =>
        exact .bindSame (h.evaluate hobject) fun v ↦ alike_setProperty hfield v value
      | subscript hobject hbracket hindex =>
        exact .bindSame (h.evaluate hobject) fun v ↦ .bindSame (h.evaluate hindex) fun i ↦
          alike_setElement hbracket v i value
      | _ => exact alike_breach _
    · exact alike_overwrite hname value

/-- A value is stored at the end of the same chain. -/
theorem store {name name' : Token} (hname : C.like.use name name') (value : Value) :
    Run.Alike C Eq (r.store name value) (r'.store name' value) :=
  h.storeWithin maxHops hname value

/-! #### Expressions -/

/-- **Expressions that are alike do the same.** -/
theorem rawStep {e e' : Expr} (he : e.Alike C.like e') :
    Run.Alike C Eq (r.rawStep e) (r'.rawStep e') := by
  cases he with
  | literal => exact .pure rfl
  | «variable» hname => exact alike_lookup hname
  | this hkeyword =>
    refine .bindSame (alike_binder? hkeyword) fun binder ↦ ?_
    cases binder with
    | none => exact alike_breach _
    | some f => exact alike_lookup hkeyword
  | super hkeyword hmethod => exact h.superMethod hkeyword hmethod
  | array _ helements => exact .bindSame (h.evaluateAll helements) fun _ ↦ alike_newArray _
  | grouping hinner => exact h.evaluate hinner
  | function hf =>
    exact .bindSame (alike_read fun _ _ hm ↦ hm.here) fun here ↦ alike_newClosure ⟨hf, rfl, rfl⟩
  | unary hoperator hoperand =>
    exact .bindSame (h.evaluate hoperand) fun v ↦ alike_unary hoperator v
  | reference hoperator htarget =>
    simp only [Evaluator.rawStep, htarget.isPlace_eq]
    exact .ite (fun _ ↦ .bindSame (alike_read fun _ _ hm ↦ hm.here) fun here ↦
      alike_onStore fun _ _ hs ↦ hs.addReference ⟨hoperator, htarget, rfl⟩) fun _ ↦ alike_breach _
  | binary hleft hoperator hright =>
    exact .bindSame (h.evaluate hleft) fun v ↦ .bindSame (h.evaluate hright) fun w ↦
      alike_binary hoperator v w
  | logical hleft hoperator hright =>
    simp only [Evaluator.rawStep, C.like.kind_eq hoperator]
    exact .bindSame (h.evaluate hleft) fun v ↦
      .ite (fun _ ↦ .pure rfl) fun _ ↦ h.evaluate hright
  | ternary hcondition _ hwhenTrue hwhenFalse =>
    exact .bindSame (h.evaluate hcondition) fun v ↦
      .ite (fun _ ↦ h.evaluate hwhenTrue) fun _ ↦ h.evaluate hwhenFalse
  | assign hname hvalue =>
    exact .bindSame (h.evaluate hvalue) fun v ↦ .bindSame (h.store hname v) fun _ ↦ .pure rfl
  | call hcallee hparen harguments =>
    exact .bindSame (h.evaluate hcallee) fun v ↦ .bindSame (h.evaluateAll harguments) fun args ↦
      h.call hparen v args
  | get hobject hname => exact .bindSame (h.evaluate hobject) fun v ↦ h.property v hname
  | set hobject hname hvalue =>
    refine .bindSame (h.evaluate hobject) fun v ↦ ?_
    split
    · exact .bindSame (h.evaluate hvalue) fun w ↦ .bindSame (alike_setProperty hname _ w) fun _ ↦
        .pure rfl
    · exact .bindSame (h.evaluate hvalue) fun w ↦ .bindSame (alike_setProperty hname _ w) fun _ ↦
        .pure rfl
    · exact alike_fault hname .same
  | subscript hobject hbracket hindex =>
    exact .bindSame (h.evaluate hobject) fun v ↦ .bindSame (h.evaluate hindex) fun i ↦
      alike_element hbracket v i
  | setElement hobject hbracket hindex hvalue =>
    exact .bindSame (h.evaluate hobject) fun v ↦ .bindSame (h.evaluate hindex) fun i ↦
      .bindSame (h.evaluate hvalue) fun w ↦ .bindSame (alike_setElement hbracket v i w) fun _ ↦
      .pure rfl

/-! #### Modules -/

/-- The statements of a program, each with what it gives. -/
theorem executeTop {program program' : Program}
    (hprogram : List.Forall₂ (Stmt.Alike C.like) program program') :
    Run.Alike C Eq (r.executeTop program) (r'.executeTop program') := by
  induction hprogram with
  | nil => exact .pure rfl
  | cons hs _ ih =>
    refine .bindSame (h.execute hs) fun flow ↦ ?_
    cases flow with
    | normal => exact ih
    | returned v => exact alike_breach _

/-- **A source does the same on machines that correspond.** -/
theorem runSource (source : String) :
    Run.Alike C (Except.Both (List.Forall₂ (Diagnostic.Alike C.like)) Eq) (r.runSource source)
      (r'.runSource source) := by
  rw [runSource_eq, runSource_eq]
  refine .bind (C.enter source) fun _ _ hentered ↦ ?_
  cases hentered with
  | error herrors => exact .pure (.error herrors)
  | ok hprogram =>
    exact .bindSame (alike_notingFault (h.executeTop hprogram)) fun _ ↦ .pure (.ok rfl)

/-- **A module is run from the same source**, scanned with different counts of tokens before it. -/
theorem runModule {keyword keyword' : Token} (hkeyword : C.like.mark keyword keyword')
    (name source : String) :
    Run.Alike C Eq (r.runModule keyword name source) (r'.runModule keyword' name source) := by
  refine .bindSame (alike_note .running) fun _ ↦
    .bind (alike_inFrame (h.runSource source) _) fun _ _ hresult ↦ ?_
  cases hresult with
  | error herrors => exact alike_fault hkeyword (.moduleRejected herrors)
  | ok _ => exact .pure rfl

/-- A native is put in the store, or a module is run. -/
theorem loadPart {keyword keyword' : Token} (hkeyword : C.like.mark keyword keyword')
    (part : Library.Part) :
    Run.Alike C Eq (r.loadPart keyword part) (r'.loadPart keyword' part) := by
  cases part with
  | source name text => exact h.runModule hkeyword name text
  | bitwise => exact .bindSame alike_bitwise fun _ ↦ alike_define _ _ _

/-- The parts of a library, until one of them fails. -/
theorem loadParts {keyword keyword' : Token} (hkeyword : C.like.mark keyword keyword')
    (parts : List Library.Part) :
    Run.Alike C Eq (r.loadParts keyword parts) (r'.loadParts keyword' parts) := by
  induction parts with
  | nil => exact .pure rfl
  | cons part rest ih => exact .bindSame (h.loadPart hkeyword part) fun _ ↦ ih

/-- The source comes from the same library or from the same world. -/
theorem importPath {keyword keyword' : Token} (hkeyword : C.like.mark keyword keyword')
    (path : String) :
    Run.Alike C Eq (r.importPath keyword path) (r'.importPath keyword' path) := by
  refine .bindSame (alike_note .importing) fun _ ↦ .ite (fun _ ↦ ?_) fun _ ↦ ?_
  · dsimp only
    split
    · exact h.loadParts hkeyword _
    · exact alike_fault hkeyword .same
  · refine .bindSame (alike_onWorld _) fun text ↦ ?_
    split
    · exact h.runModule hkeyword _ _
    · exact alike_fault hkeyword .same

/-! #### Statements -/

omit h in
/-- Conditions give the same value in every round, so there are as many rounds. -/
theorem loopWithin {condition condition' : Run Value} {body body' : Run Flow}
    (hcondition : Run.Alike C Eq condition condition') (hbody : Run.Alike C Eq body body')
    (n : Nat) : Run.Alike C Eq (loopWithin condition body n) (loopWithin condition' body' n) := by
  induction n with
  | zero => exact alike_exhausted
  | succ n ih =>
    refine .bindSame hcondition fun v ↦ .ite (fun _ ↦ ?_) fun _ ↦ .pure rfl
    refine .bindSame hbody fun flow ↦ ?_
    cases flow with
    | normal => exact ih
    | returned v => exact .pure rfl

/-- A superclass that is no class is reported on both sides. -/
theorem superclassOf {superclass superclass' : Option Token}
    (hsuperclass : Option.Rel C.like.use superclass superclass') :
    Run.Alike C Eq (r.superclassOf superclass) (r'.superclassOf superclass') := by
  cases hsuperclass with
  | none => exact .pure rfl
  | some hname =>
    refine .bindSame (h.evaluate (.variable hname)) fun v ↦ ?_
    split
    · exact .pure rfl
    · exact alike_fault (C.like.mark_of_use hname) .same

/-- The class is declared with methods that are alike, under the same number. -/
theorem declareClass {name name' : Token} (hname : C.like.mark name name')
    {superclass superclass' : Option Token}
    (hsuperclass : Option.Rel C.like.use superclass superclass')
    {methods methods' classMethods classMethods' : List Function}
    (hmethods : List.Forall₂ (Function.Alike C.like) methods methods')
    (hclassMethods : List.Forall₂ (Function.Alike C.like) classMethods classMethods') :
    Run.Alike C Eq (r.declareClass name superclass methods classMethods)
      (r'.declareClass name' superclass' methods' classMethods') := by
  unfold Evaluator.declareClass
  rw [C.like.lexeme_eq hname]
  refine .bindSame (h.superclassOf hsuperclass) fun superclass ↦
    .bindSame (alike_read fun _ _ hm ↦ hm.here) fun here ↦ .bindSame (alike_define _ _ _) fun _ ↦
    .bindSame (alike_onStore fun _ _ hs ↦ hs.addDeclared here _ superclass hmethods hclassMethods)
      fun id ↦ .bindSame (alike_read fun _ _ hm ↦ by rw [hm.store.frames]) fun binder ↦ ?_
  cases binder with
  | none => exact alike_breach _
  | some f => exact alike_define _ _ _

/-- **Statements that are alike do the same.** -/
theorem executeStep {s s' : Stmt} (hs : s.Alike C.like s') :
    Run.Alike C Eq (r.executeStep s) (r'.executeStep s') := by
  cases hs with
  | expression hvalue => exact .bindSame (h.evaluate hvalue) fun _ ↦ .pure rfl
  | block hbody =>
    exact .bindSame (alike_read fun _ _ hm ↦ hm.here) fun here ↦
      .bindSame (alike_newFrame here _) fun frame ↦ alike_inFrame (h.executeAll hbody) frame
  | var hname hinitial =>
    simp only [Evaluator.executeStep, C.like.lexeme_eq hname]
    have hdefine (v : Value) (x : String) : Run.Alike C Eq
        (do Run.define (← Run.read (·.here)) x v; return Flow.normal)
        (do Run.define (← Run.read (·.here)) x v; return Flow.normal) :=
      .bindSame (alike_read fun _ _ hm ↦ hm.here) fun here ↦
        .bindSame (alike_define here x v) fun _ ↦ .pure rfl
    cases hinitial with
    | none => exact .bindSame (.pure rfl) fun v ↦ hdefine v _
    | some he => exact .bindSame (h.raw he) fun v ↦ hdefine v _
  | ifElse _ hcondition hwhenTrue hwhenFalse =>
    refine .bindSame (h.evaluate hcondition) fun v ↦ .ite (fun _ ↦ h.execute hwhenTrue) fun _ ↦ ?_
    cases hwhenFalse with
    | none => exact .pure rfl
    | some hs => exact h.execute hs
  | loop _ hcondition hbody =>
    simp only [Evaluator.executeStep, h.rounds]
    exact loopWithin (h.evaluate hcondition) (h.execute hbody) _
  | ret _ hvalue =>
    cases hvalue with
    | none => exact .pure rfl
    | some he => exact .bindSame (h.evaluate he) fun _ ↦ .pure rfl
  | importModule hkeyword hname =>
    refine .bindSame (h.evaluate hname) fun v ↦ ?_
    split
    · exact .bindSame (h.importPath hkeyword _) fun _ ↦ .pure rfl
    · exact alike_fault hkeyword .same
  | classDecl hname hsuperclass hmethods hclassMethods =>
    exact .bindSame (h.declareClass hname hsuperclass hmethods hclassMethods) fun _ ↦ .pure rfl

end Evaluator.Alike

/-- **The evaluator does the same on machines that correspond**, on any budget. -/
theorem alike_evaluatorOf (budget : Nat) : (evaluatorOf budget).Alike C (evaluatorOf budget) := by
  induction budget with
  | zero =>
    exact ⟨rfl, fun _ ↦ alike_exhausted, fun _ ↦ alike_exhausted, fun _ _ _ ↦ alike_exhausted⟩
  | succ n ih => exact ⟨rfl, ih.rawStep, ih.executeStep, ih.applyStep⟩

/-! ### Turns -/

/-- The same end of a source, up to the tokens at which errors are reported. -/
inductive Outcome.Alike (L : Likeness) : Outcome → Outcome → Prop
  | completed : Outcome.Alike L .completed .completed
  | rejected {errors errors' : List Diagnostic} : List.Forall₂ (Diagnostic.Alike L) errors errors' →
      Outcome.Alike L (.rejected errors) (.rejected errors')
  | aborted {f f' : Fault} : f.Alike L f' → Outcome.Alike L (.aborted f) (.aborted f')
  | breached {b : Breach} : Outcome.Alike L (.breached b) (.breached b)
  | exhausted : Outcome.Alike L .exhausted .exhausted

/-- **A source ends in the same way on machines that correspond**, and leaves machines that do. -/
theorem Machine.run_alike {m m' : Machine} (h : C.rel m m') (budget : Nat) (source : String) :
    (run budget m source).1.Alike C.like (run budget m' source).1 ∧
      C.rel (run budget m source).2 (run budget m' source).2 := by
  have hmatches := (alike_evaluatorOf (C := C) budget).runSource source m m' h
  unfold run
  generalize (evaluatorOf budget).runSource source m = result at hmatches
  generalize (evaluatorOf budget).runSource source m' = result' at hmatches
  cases hmatches with
  | ok hvalue hm =>
    cases hvalue with
    | error herrors => exact ⟨.rejected herrors, hm⟩
    | ok _ => exact ⟨.completed, hm⟩
  | error hhalt hm =>
    cases hhalt with
    | fault hf => exact ⟨.aborted hf, hm⟩
    | breach => exact ⟨.breached, hm⟩
    | exhausted => exact ⟨.exhausted, hm⟩

end AliasScript
