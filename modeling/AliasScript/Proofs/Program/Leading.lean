import AliasScript.Proofs.Program.Reading

/-!
# Where parsers lead

The other direction of `Parse.Reads`: on tokens that begin with a known stretch, a parser behaves as
another one does behind that stretch (`Parse.Leads`). A parser that recognizes a tree leads to the
one that gives the tree and reads nothing; a loop leads to what is left of it.
-/

namespace AliasScript

namespace Parse

variable {α β : Type} {last : Option Token} {later : List Token}

/-- Before the tokens `r`, with others behind them, `p` does what `q` does behind them. -/
def Leads (last : Option Token) (p : Parse α) (r : List Token) (q : Parse α)
    (later : List Token) : Prop :=
  ∀ eof errors, p ⟨r ++ later, eof, last, errors⟩ = q ⟨later, eof, r.getLast?.or last, errors⟩

/-- Before no tokens a parser does what it does. -/
theorem Leads.refl (p : Parse α) : Leads last p [] p later :=
  fun _ _ ↦ rfl

/-- **Tokens one behind the other**: the parser that is left after the first ones goes on before the
others. -/
theorem Leads.trans {p q q' : Parse α} {r r' : List Token}
    (h : Leads last p r q (r' ++ later)) (h' : Leads (r.getLast?.or last) q r' q' later) :
    Leads last p (r ++ r') q' later := by
  intro eof errors
  rw [List.append_assoc, h, h', List.getLast?_append, Option.or_assoc]

/-- A step that reads nothing may be put behind. -/
theorem Leads.trans_nil {p q q' : Parse α} {r : List Token} (h : Leads last p r q later)
    (h' : Leads (r.getLast?.or last) q [] q' later) : Leads last p r q' later :=
  fun eof errors ↦ (h eof errors).trans (h' eof errors)

/-- The rule for sequences whose first parser is known to give something. -/
theorem Leads.bind {p : Parse α} {k : α → Parse β} {q : Parse β} {a : α} {r r' : List Token}
    (h : Leads last p r (pure a) (r' ++ later)) (h' : Leads (r.getLast?.or last) (k a) r' q later) :
    Leads last (p >>= k) (r ++ r') q later := by
  intro eof errors
  rw [List.append_assoc, bind_of_ok (h eof errors), h', List.getLast?_append, Option.or_assoc]

/-- The rule for sequences whose first parser only looks. -/
theorem Leads.bind_look {p : Parse α} {k : α → Parse β} {q : Parse β} {a : α} {r : List Token}
    (h : Leads last p [] (pure a) (r ++ later)) (h' : Leads last (k a) r q later) :
    Leads last (p >>= k) r q later :=
  h.bind h'

/-- The rule for sequences up to the second parser. -/
theorem Leads.bind_pure {p : Parse α} {k : α → Parse β} {a : α} {r : List Token}
    (h : Leads last p r (pure a) later) : Leads last (p >>= k) r (k a) later :=
  fun eof errors ↦ bind_of_ok (h eof errors)

/-- The rule for sequences whose second parser only looks. -/
theorem Leads.bind_then {p : Parse α} {k : α → Parse β} {q : Parse β} {a : α} {r : List Token}
    (h : Leads last p r (pure a) later) (h' : Leads (r.getLast?.or last) (k a) [] q later) :
    Leads last (p >>= k) r q later :=
  fun eof errors ↦ (h.bind_pure eof errors).trans (h' eof errors)

/-- What is made of the result is made behind the same tokens. -/
theorem Leads.map {p : Parse α} {a : α} {r : List Token} (h : Leads last p r (pure a) later)
    (f : α → β) : Leads last (f <$> p) r (pure (f a)) later :=
  fun eof errors ↦ bind_of_ok (h eof errors)

/-- What would record an error under a condition does not, where the condition does not hold. -/
theorem leads_recordIf_not {b : Prop} {_ : Decidable b} {cause : GrammarCause} {k : Unit → Parse α}
    {q : Parse α} {r : List Token} (hb : ¬ b) (h : Leads last (k ()) r q later) :
    Leads last (if b then (do let c ← get; let u ← record c.peek cause; k u) else k ()) r q
      later := by
  rwa [if_neg hb]

/-- A condition that is met is gone. -/
theorem Leads.ite_true {p p' q : Parse α} {r : List Token} (h : Leads last p r q later) :
    Leads last (if true = true then p else p') r q later := by
  rwa [if_pos rfl]

theorem Leads.ite_false {p p' q : Parse α} {r : List Token} (h : Leads last p' r q later) :
    Leads last (if false = true then p else p') r q later := by
  rwa [if_neg (by simp)]

/-- A parser that looks at the cursor leads where it leads for the cursors that stand there. -/
theorem leads_get {k : Cursor → Parse β} {q : Parse β} {r : List Token}
    (h : ∀ c, c.next? = nextKind (r ++ later) none → c.rest = r ++ later →
      Leads last (k c) r q later) :
    Leads last (get >>= k) r q later :=
  fun eof errors ↦ h ⟨r ++ later, eof, last, errors⟩ rfl rfl eof errors

/-! ### Single tokens -/

/-- A token that passes the test is read. -/
theorem leads_acceptIf {test : Kind → Bool} {t : Token} (h : test t.kind = true) :
    Leads last (acceptIf test) [t] (pure (some t)) later :=
  fun eof errors ↦ (acceptIf_cons test t later eof last errors).trans (if_pos h)

/-- Another token is left where it is. -/
theorem leads_acceptIf_none {test : Kind → Bool}
    (h : ∀ kind ∈ nextKind later none, test kind = false) :
    Leads last (acceptIf test) [] (pure none) later := by
  intro eof errors
  cases later with
  | nil => rfl
  | cons t later =>
    have ht := h t.kind rfl
    exact (acceptIf_cons test t later eof last errors).trans (if_neg (by simp [ht]))

/-- A token of the kind is read. -/
theorem leads_accept {kind : Kind} {t : Token} (h : t.kind = kind) :
    Leads last (accept kind) [t] (pure (some t)) later :=
  leads_acceptIf (by simp [h])

theorem leads_accept_none {kind : Kind} (h : nextKind later none ≠ some kind) :
    Leads last (accept kind) [] (pure none) later := by
  refine leads_acceptIf_none fun kind' hkind' ↦ ?_
  rw [beq_eq_false_iff_ne]
  rintro rfl
  exact h hkind'

/-- A token that is required is read. -/
theorem leads_expect {kind : Kind} {cause : GrammarCause} {t : Token} (h : t.kind = kind) :
    Leads last (expect kind cause) [t] (pure t) later :=
  (leads_accept h).bind_pure

/-- Looking at a token leaves it where it is. -/
theorem leads_check {kind : Kind} (h : nextKind later none = some kind) :
    Leads last (check kind) [] (pure true) later := by
  intro eof errors
  let c : Cursor := ⟨later, eof, last, errors⟩
  have hcheck : c.check kind = true := Cursor.check_eq_true_iff.2 h
  show EStateM.Result.ok (c.check kind) c = .ok true c
  rw [hcheck]

theorem leads_check_not {kind : Kind} (h : nextKind later none ≠ some kind) :
    Leads last (check kind) [] (pure false) later := by
  intro eof errors
  let c : Cursor := ⟨later, eof, last, errors⟩
  have hcheck : c.check kind = false := Cursor.check_eq_false_iff.2 h
  show EStateM.Result.ok (c.check kind) c = .ok false c
  rw [hcheck]

/-- Before a token the end has not come. -/
theorem leads_atEnd_not (h : nextKind later none ≠ none) :
    Leads last atEnd [] (pure false) later := by
  cases later with
  | nil => exact absurd rfl h
  | cons t later => exact fun _ _ ↦ rfl

/-- A token that is known to be next is read. -/
theorem leads_advance {t : Token} : Leads last (modify Cursor.advance) [t] (pure ()) later :=
  fun _ _ ↦ rfl

/-- Without a failure nothing is recovered from. -/
theorem leads_recovering {p : Parse Stmt} {s : Stmt} {r : List Token}
    (h : Leads last p r (pure s) later) : Leads last (recovering p) r (pure (some s)) later := by
  intro eof errors
  simp only [recovering, h eof errors]
  rfl

/-- The end of a statement is read, if there is something to it. -/
theorem leads_terminator {cause : GrammarCause} {written ends : List Token}
    (h : Ends written ends (nextKind later none)) (hlast : last = written.getLast?) :
    Leads last (terminator cause) ends (pure ()) later := by
  subst hlast
  rcases h with ⟨t, rfl, ht⟩ | ⟨rfl, hnext⟩
  · exact (leads_accept ht).bind_pure
  have hsemicolon : nextKind later none ≠ some .semicolon := by
    rcases hnext with hnext | hnext | hnext | hnext
    · simp [hnext]
    · simp [hnext]
    · simp [hnext]
    · exact hnext.2.1
  refine (leads_accept_none hsemicolon).bind_look fun eof errors ↦ ?_
  let c : Cursor := ⟨later, eof, written.getLast?, errors⟩
  have hends :
      (c.check .rightBrace || c.check .elseWord || c.atEnd || c.after .rightBrace) = true := by
    simp only [Bool.or_eq_true, Cursor.check_eq_true_iff, Cursor.atEnd_iff, Cursor.after_iff]
    rcases hnext with hnext | hnext | hnext | ⟨hbrace, -⟩
    · exact .inl (.inr hnext)
    · exact .inl (.inl (.inl hnext))
    · exact .inl (.inl (.inr hnext))
    · exact .inr hbrace
  show (if (c.check .rightBrace || c.check .elseWord || c.atEnd || c.after .rightBrace) = true
    then (pure () : Parse Unit) else failHere cause) c = _
  rw [if_pos hends]
  rfl

end Parse

end AliasScript
