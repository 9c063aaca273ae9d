import AliasScript.Proofs.Program.Spelling

/-!
# What parsers read

A parser that records nothing has read a stretch of the tokens, and what it gives is a tree of that
stretch. `Parse.Reads` says so: errors are never taken back, and a result that comes without a new
error stands in a relation to the tokens that were read for it and to the cursor behind them.

The rules below follow the ways in which parsers are put together. The rule for sequences takes the
relation of the second parser under the assumption of the first, so that at the end of a parser all
stretches are known, in their order.
-/

namespace AliasScript

/-- Skipping to the next statement records nothing. -/
theorem Cursor.errors_synchronize (c : Cursor) : c.synchronize.errors = c.errors := by
  unfold synchronize
  split <;> rfl

namespace Cursor

/-- The kind of the token that is read next. -/
def next? (c : Cursor) : Option Kind :=
  nextKind c.rest none

/-- A test of the next token, as a test of its kind. -/
theorem check_eq_true_iff {c : Cursor} {kind : Kind} :
    c.check kind = true ↔ c.next? = some kind := by
  obtain ⟨_ | ⟨t, rest⟩, eof, last, errors⟩ := c <;> simp [check, next?]

theorem check_eq_false_iff {c : Cursor} {kind : Kind} :
    c.check kind = false ↔ c.next? ≠ some kind := by
  rw [Ne, ← check_eq_true_iff, Bool.not_eq_true]

/-- At the end there is no next token. -/
theorem atEnd_iff {c : Cursor} : c.atEnd = true ↔ c.next? = none := by
  obtain ⟨_ | ⟨t, rest⟩, eof, last, errors⟩ := c <;> simp [atEnd, next?]

/-- A test of the token read last. -/
theorem after_iff {c : Cursor} {kind : Kind} :
    c.after kind = true ↔ ∃ t, c.last = some t ∧ t.kind = kind := by
  obtain ⟨rest, eof, _ | t, errors⟩ := c <;> simp [after]

/-- The tokens lie between the two cursors. -/
structure Spans (c : Cursor) (read : List Token) (c' : Cursor) : Prop where
  rest : c.rest = read ++ c'.rest
  last : c'.last = read.getLast?.or c.last

/-- No tokens are read between a cursor and itself. -/
theorem Spans.refl (c : Cursor) : c.Spans [] c :=
  ⟨rfl, rfl⟩

/-- What is read on the way to a cursor, and from there on. -/
theorem Spans.trans {c c' c'' : Cursor} {read later : List Token} (h : c.Spans read c')
    (h' : c'.Spans later c'') : c.Spans (read ++ later) c'' where
  rest := by rw [h.rest, h'.rest, List.append_assoc]
  last := by rw [h'.last, h.last, List.getLast?_append, Option.or_assoc]

/-- The token that was next is the first one read, or is still next. -/
theorem Spans.next? {c c' : Cursor} {read : List Token} (h : c.Spans read c') :
    c.next? = nextKind read c'.next? := by
  unfold Cursor.next?
  rw [h.rest, nextKind_append]

end Cursor

namespace Parse

variable {α β : Type}

/-- The cursor that a parser leaves behind. -/
def cursorAfter (p : Parse α) (c : Cursor) : Cursor :=
  match p c with
  | .ok _ c' => c'
  | .error _ c' => c'

/-- A parser that succeeds ends before the tokens that it left. -/
theorem cursorAfter_of_ok {p : Parse α} {c c' : Cursor} {a : α} (h : p c = .ok a c') :
    p.cursorAfter c = c' := by
  simp only [cursorAfter, h]

/-- So does one that fails. -/
theorem cursorAfter_of_error {p : Parse α} {c c' : Cursor} {e : ParseFailure}
    (h : p c = .error e c') : p.cursorAfter c = c' := by
  simp only [cursorAfter, h]

/-- After a result the next parser goes on. -/
theorem bind_of_ok {p : Parse α} {k : α → Parse β} {c c' : Cursor} {a : α} (h : p c = .ok a c') :
    (p >>= k) c = k a c' := by
  show EStateM.bind p k c = _
  simp only [EStateM.bind, h]

/-- After a failure it does not. -/
theorem bind_of_error {p : Parse α} {k : α → Parse β} {c c' : Cursor} {e : ParseFailure}
    (h : p c = .error e c') : (p >>= k) c = .error e c' := by
  show EStateM.bind p k c = _
  simp only [EStateM.bind, h]

/-- Errors are never taken back, and what a parser gives without recording an error is related to
the tokens that it has read and to the cursor behind them. -/
structure Reads (p : Parse α) (related : List Token → α → Cursor → Prop) : Prop where
  grows : ∀ c, c.errors.size ≤ (p.cursorAfter c).errors.size
  related : ∀ c a c', p c = .ok a c' → c'.errors.size ≤ c.errors.size →
    ∃ read, c.Spans read c' ∧ related read a c'

namespace Reads

variable {p : Parse α} {P Q : List Token → α → Cursor → Prop}

/-- A postcondition may be weakened. -/
theorem imp (hp : Reads p P) (h : ∀ read a c, P read a c → Q read a c) : Reads p Q where
  grows := hp.grows
  related c a c' hc hle := by
    obtain ⟨read, hread, hP⟩ := hp.related c a c' hc hle
    exact ⟨read, hread, h read a c' hP⟩

/-- The token read last is known behind a parser that reads something. -/
theorem last (hp : Reads p P) :
    Reads p fun read a c ↦ P read a c ∧ (read ≠ [] → c.last = read.getLast?) where
  grows := hp.grows
  related c a c' hc hle := by
    obtain ⟨read, hread, hP⟩ := hp.related c a c' hc hle
    refine ⟨read, hread, hP, fun hne ↦ ?_⟩
    rw [hread.last, List.getLast?_eq_some_getLast hne, Option.some_or]

/-- Nothing has to be said of a parser that gives nothing and records nothing. -/
theorem of_error (h : ∀ c, ∃ e, p c = .error e c) : Reads p Q where
  grows c := by
    obtain ⟨e, he⟩ := h c
    exact (cursorAfter_of_error he).symm ▸ Nat.le_refl _
  related c a c' hc := by
    obtain ⟨e, he⟩ := h c
    rw [he] at hc
    cases hc

/-- A parser that looks at the cursor and reads nothing. -/
theorem of_look (f : Cursor → α) (h : ∀ c, p c = .ok (f c) c) :
    Reads p fun read a c ↦ read = [] ∧ a = f c where
  grows c := by
    exact (cursorAfter_of_ok (h c)).symm ▸ Nat.le_refl _
  related c a c' hc _ := by
    rw [h] at hc
    cases hc
    exact ⟨[], .refl c, rfl, rfl⟩

/-- A parser that reads nothing. -/
theorem pure {a : α} (h : ∀ c, Q [] a c) : Reads (Pure.pure a) Q :=
  (of_look (fun _ ↦ a) fun _ ↦ rfl).imp (by rintro _ _ c ⟨rfl, rfl⟩; exact h c)

/-- The rule for sequences, with what lies between the two cursors. -/
theorem bind_spans {k : α → Parse β} {R : List Token → β → Cursor → Prop} (hp : Reads p P)
    (hk : ∀ a, Reads (k a) fun later b c ↦ ∀ read c', c'.Spans later c → P read a c' →
      R (read ++ later) b c) :
    Reads (p >>= k) R where
  grows c := by
    have hgrows := hp.grows c
    cases hc : p c with
    | ok a c₁ =>
      rw [cursorAfter_of_ok hc] at hgrows
      have hbind : (p >>= k).cursorAfter c = (k a).cursorAfter c₁ := by
        simp only [cursorAfter, bind_of_ok hc]
      rw [hbind]
      exact Nat.le_trans hgrows ((hk a).grows c₁)
    | error e c₁ =>
      rw [cursorAfter_of_error hc] at hgrows
      rwa [cursorAfter_of_error (bind_of_error hc)]
  related c b c₂ hc hle := by
    have hgrows := hp.grows c
    cases hp₁ : p c with
    | error e c₁ =>
      rw [bind_of_error hp₁] at hc
      cases hc
    | ok a c₁ =>
      rw [bind_of_ok hp₁] at hc
      rw [cursorAfter_of_ok hp₁] at hgrows
      have hgrows' := (hk a).grows c₁
      rw [cursorAfter_of_ok hc] at hgrows'
      -- Neither part has recorded an error, since both together have not.
      obtain ⟨read, hread, hP⟩ := hp.related c a c₁ hp₁ (Nat.le_trans hgrows' hle)
      obtain ⟨later, hlater, hR⟩ := (hk a).related c₁ b c₂ hc (Nat.le_trans hle hgrows)
      exact ⟨read ++ later, hread.trans hlater, hR read c₁ hlater hP⟩

/-- **Parsers one behind the other**: the second one is told what the first has read. -/
theorem bind {k : α → Parse β} {R : List Token → β → Cursor → Prop} (hp : Reads p P)
    (hk : ∀ a, Reads (k a) fun later b c ↦ ∀ read c', P read a c' → R (read ++ later) b c) :
    Reads (p >>= k) R :=
  hp.bind_spans fun a ↦ (hk a).imp fun _ _ _ h read c' _ hP ↦ h read c' hP

/-- What is made of a result does not matter to what is read. -/
theorem map {f : α → β} {R : List Token → β → Cursor → Prop}
    (hp : Reads p fun read a c ↦ R read (f a) c) : Reads (f <$> p) R where
  grows c := by
    have hgrows := hp.grows c
    cases hc : p c with
    | ok a c₁ =>
      rw [cursorAfter_of_ok hc] at hgrows
      rwa [cursorAfter_of_ok (show (f <$> p) c = .ok (f a) c₁ from bind_of_ok hc)]
    | error e c₁ =>
      rw [cursorAfter_of_error hc] at hgrows
      rwa [cursorAfter_of_error (show (f <$> p) c = .error e c₁ from bind_of_error hc)]
  related c b c₂ hc hle := by
    cases hp₁ : p c with
    | error e c₁ =>
      rw [show (f <$> p) c = .error e c₁ from bind_of_error hp₁] at hc
      cases hc
    | ok a c₁ =>
      rw [show (f <$> p) c = .ok (f a) c₁ from bind_of_ok hp₁] at hc
      cases hc
      exact hp.related c a c₂ hp₁ hle

/-- A choice, each branch with its own condition. -/
theorem ite {b : Prop} {_ : Decidable b} {q : Parse α} (hp : b → Reads p Q) (hq : ¬ b → Reads q Q) :
    Reads (if b then p else q) Q := by
  by_cases h : b
  · rw [if_pos h]
    exact hp h
  · rw [if_neg h]
    exact hq h

/-- The rule for sequences, where the first parser is chosen by a condition. -/
theorem bind_ite {b : Prop} {_ : Decidable b} {q : Parse α} {k : α → Parse β}
    {R : List Token → β → Cursor → Prop} (hp : b → Reads p P) (hq : ¬ b → Reads q P)
    (hk : ∀ a, Reads (k a) fun later b c ↦ ∀ read c', P read a c' → R (read ++ later) b c) :
    Reads (if b then p >>= k else q >>= k) R :=
  .ite (fun h ↦ (hp h).bind hk) fun h ↦ (hq h).bind hk

end Reads

/-! ### Single tokens -/

/-- A parser without a result has every postcondition. -/
theorem reads_exhausted {Q : List Token → α → Cursor → Prop} : Reads exhausted Q :=
  .of_error fun _ ↦ ⟨_, rfl⟩

/-- Nor is there a result after an error. -/
theorem reads_failHere {cause : GrammarCause} {Q : List Token → α → Cursor → Prop} :
    Reads (failHere cause) Q :=
  .of_error fun _ ↦ ⟨_, rfl⟩

theorem reads_failHere_bind {cause : GrammarCause} {k : α → Parse β}
    {Q : List Token → β → Cursor → Prop} : Reads (failHere cause >>= k) Q :=
  .of_error fun _ ↦ ⟨_, rfl⟩

/-- What records an error gives nothing without one. -/
theorem reads_record {t : Token} {cause : GrammarCause} {Q : List Token → Unit → Cursor → Prop} :
    Reads (record t cause) Q where
  grows c := by simp [cursorAfter_of_ok (show record t cause c = .ok () _ from rfl), Cursor.record]
  related c a c' hc hle := by
    cases (show EStateM.Result.ok () (c.record t cause) = .ok a c' from hc)
    simp only [Cursor.record, Array.size_push] at hle
    omega

/-- Looking at the cursor reads nothing. -/
theorem reads_get : Reads get fun read a c ↦ read = [] ∧ a = c :=
  .of_look id fun _ ↦ rfl

/-- Where an error is recorded under a condition, the rest is read without one only if the condition
does not hold. -/
theorem reads_recordIf {b : Prop} {_ : Decidable b} {cause : GrammarCause} {k : Unit → Parse α}
    {Q : List Token → α → Cursor → Prop} (hk : Reads (k ()) fun read a c ↦ ¬ b → Q read a c) :
    Reads (if b then (do let c ← get; let u ← record c.peek cause; k u) else k ()) Q := by
  refine .ite (fun _ ↦ ?_) fun hb ↦ hk.imp fun _ _ _ h ↦ h hb
  refine reads_get.bind fun c ↦ Reads.bind (P := fun _ _ _ ↦ False) reads_record fun _ ↦ hk.imp ?_
  intro _ _ _ _ _ _ hfalse
  exact hfalse.elim

theorem reads_check {kind : Kind} :
    Reads (check kind) fun read a c ↦ read = [] ∧ a = c.check kind :=
  .of_look (·.check kind) fun _ ↦ rfl

theorem reads_atEnd : Reads atEnd fun read a c ↦ read = [] ∧ a = c.atEnd :=
  .of_look (·.atEnd) fun _ ↦ rfl

/-- Advancing reads one token, but at the end it reads none. -/
theorem reads_advance :
    Reads (modify Cursor.advance) fun read _ c ↦ (∃ t, read = [t]) ∨ (read = [] ∧ c.rest = []) where
  grows c := by
    obtain ⟨_ | ⟨t, rest⟩, eof, last, errors⟩ := c <;> exact Nat.le_refl _
  related c a c' hc _ := by
    obtain ⟨_ | ⟨t, rest⟩, eof, last, errors⟩ := c
    · cases hc
      exact ⟨[], .refl _, .inr ⟨rfl, rfl⟩⟩
    · cases hc
      exact ⟨[t], ⟨rfl, rfl⟩, .inl ⟨t, rfl⟩⟩

/-- A token that passes the test is taken, and one that does not is left. -/
theorem acceptIf_cons (test : Kind → Bool) (t : Token) (rest : List Token) (eof : Token)
    (last : Option Token) (errors : Array GrammarError) :
    acceptIf test ⟨t :: rest, eof, last, errors⟩ =
      if test t.kind then .ok (some t) ⟨rest, eof, some t, errors⟩
      else .ok none ⟨t :: rest, eof, last, errors⟩ := by
  show (if test t.kind then (do modify Cursor.advance; return some t) else pure none :
    Parse (Option Token)) ⟨t :: rest, eof, last, errors⟩ = _
  split <;> rfl

/-- At the end no token is taken. -/
theorem acceptIf_nil (test : Kind → Bool) (eof : Token) (last : Option Token)
    (errors : Array GrammarError) :
    acceptIf test ⟨[], eof, last, errors⟩ = .ok none ⟨[], eof, last, errors⟩ :=
  rfl

/-- A token is read if it passes the test, and otherwise the next one does not pass it. -/
theorem reads_acceptIf {test : Kind → Bool} :
    Reads (acceptIf test) fun read a c ↦
      (∃ t, a = some t ∧ read = [t] ∧ test t.kind = true) ∨
        (a = none ∧ read = [] ∧ ∀ kind ∈ c.next?, test kind = false) where
  grows c := by
    obtain ⟨_ | ⟨t, rest⟩, eof, last, errors⟩ := c
    · exact (cursorAfter_of_ok (acceptIf_nil test eof last errors)).symm ▸ Nat.le_refl _
    · by_cases h : test t.kind = true
      · exact (cursorAfter_of_ok ((acceptIf_cons ..).trans (if_pos h))).symm ▸ Nat.le_refl _
      · exact (cursorAfter_of_ok ((acceptIf_cons ..).trans (if_neg h))).symm ▸ Nat.le_refl _
  related c a c' hc _ := by
    obtain ⟨_ | ⟨t, rest⟩, eof, last, errors⟩ := c
    · rw [acceptIf_nil] at hc
      cases hc
      exact ⟨[], .refl _, .inr ⟨rfl, rfl, fun _ h ↦ nomatch h⟩⟩
    · rw [acceptIf_cons] at hc
      split at hc
      · next h =>
        cases hc
        exact ⟨[t], ⟨rfl, rfl⟩, .inl ⟨t, rfl, rfl, h⟩⟩
      · next h =>
        cases hc
        refine ⟨[], .refl _, .inr ⟨rfl, rfl, ?_⟩⟩
        rintro kind ⟨⟩
        exact Bool.not_eq_true _ ▸ h

/-- A token of a kind is read if it is next. -/
theorem reads_accept {kind : Kind} :
    Reads (accept kind) fun read a c ↦
      (∃ t, a = some t ∧ read = [t] ∧ t.kind = kind) ∨
        (a = none ∧ read = [] ∧ c.next? ≠ some kind) := by
  refine reads_acceptIf.imp fun read a c h ↦ ?_
  rcases h with ⟨t, ha, hread, ht⟩ | ⟨ha, hread, hnot⟩
  · exact .inl ⟨t, ha, hread, eq_of_beq ht⟩
  · exact .inr ⟨ha, hread, fun hnext ↦ by simpa using hnot kind hnext⟩

/-- **A token that is required has been read**, if there is a result. -/
theorem reads_expect {kind : Kind} {cause : GrammarCause} :
    Reads (expect kind cause) fun read t _ ↦ read = [t] ∧ t.kind = kind := by
  refine reads_accept.bind fun a ↦ ?_
  cases a with
  | some t =>
    refine .pure fun _ read _ h ↦ ?_
    rcases h with ⟨t', ht', hread, hkind⟩ | ⟨hnone, -⟩
    · cases ht'
      exact ⟨by simp [hread], hkind⟩
    · cases hnone
  | none => exact reads_failHere

/-- What has been read for the end of a statement, and why it may end there. -/
def Terminates (read : List Token) (c : Cursor) : Prop :=
  (∃ t, read = [t] ∧ t.kind = .semicolon) ∨
    (read = [] ∧ c.next? ≠ some .semicolon ∧
      (c.next? = some .rightBrace ∨ c.next? = some .elseWord ∨ c.next? = none ∨
        ∃ t, c.last = some t ∧ t.kind = .rightBrace))

/-- What terminates a statement is written as its end. -/
theorem Terminates.ends {read written : List Token} {c c' : Cursor} (h : Terminates read c)
    (hspans : c'.Spans read c) (hlast : c'.last = written.getLast?)
    (hstops : (∃ t, written.getLast? = some t ∧ t.kind = .rightBrace) → Stops .comma c'.next?) :
    Ends written read c.next? := by
  rcases h with hsemicolon | ⟨rfl, hnot, hnext⟩
  · exact .inl hsemicolon
  · have hlast' : c.last = written.getLast? := hspans.last.trans hlast
    have hnext' : c'.next? = c.next? := hspans.next?
    rcases hnext with hbrace | helse | hend | hafter
    · exact .inr ⟨rfl, .inr (.inl hbrace)⟩
    · exact .inr ⟨rfl, .inr (.inr (.inl helse))⟩
    · exact .inr ⟨rfl, .inl hend⟩
    · rw [hlast'] at hafter
      exact .inr ⟨rfl, .inr (.inr (.inr ⟨hafter, hnot, hnext' ▸ hstops hafter⟩))⟩

/-- A separator is read, or what may stand in its place is next. -/
theorem reads_terminator {cause : GrammarCause} :
    Reads (terminator cause) fun read _ c ↦ Terminates read c := by
  refine reads_accept.bind_spans fun a ↦ ?_
  cases a with
  | some t =>
    refine .pure ?_
    rintro c read c₁ - (⟨t', ht', rfl, hkind⟩ | ⟨hnone, -⟩)
    · exact .inl ⟨t', rfl, hkind⟩
    · cases hnone
  | none =>
    refine reads_get.bind_spans fun c₀ ↦ .ite (fun hends ↦ .pure ?_) fun _ ↦ reads_failHere
    rintro c read₂ c₂ hspans₂ ⟨rfl, rfl⟩ read₁ c₁ hspans₁ (⟨t, ht, -⟩ | ⟨-, rfl, hsemicolon⟩)
    · cases ht
    have hnext : c₀.next? = c.next? := hspans₂.next?
    have hlast : c.last = c₀.last := hspans₂.last
    rw [hspans₁.next?, List.append_nil] at hsemicolon
    simp only [Bool.or_eq_true, Cursor.check_eq_true_iff, Cursor.atEnd_iff, Cursor.after_iff,
      ← hlast, hnext] at hends
    refine .inr ⟨rfl, hsemicolon, ?_⟩
    rcases hends with ((hbrace | helse) | hend) | hafter
    · exact .inl hbrace
    · exact .inr (.inl helse)
    · exact .inr (.inr (.inl hend))
    · exact .inr (.inr (.inr hafter))

/-- The same with a result behind it. -/
theorem reads_terminator_pure {cause : GrammarCause} {a : α} :
    Reads (do terminator cause; return a) fun read a' c ↦ a' = a ∧ Terminates read c := by
  refine reads_terminator.bind_spans fun _ ↦ .pure ?_
  rintro c read c₁ hspans h
  have hnext : c₁.next? = c.next? := hspans.next?
  have hlast : c.last = c₁.last := hspans.last
  unfold Terminates at h ⊢
  rw [hnext, ← hlast] at h
  simpa using h

/-- Where an error is recovered from, it is recorded. -/
theorem reads_recovering {p : Parse Stmt} {P : List Token → Stmt → Cursor → Prop}
    (hp : Reads p P) :
    Reads (recovering p) fun read a c ↦ ∃ s, a = some s ∧ P read s c where
  grows c := by
    have hgrows := hp.grows c
    cases hc : p c with
    | ok s c₁ =>
      rw [cursorAfter_of_ok hc] at hgrows
      rwa [cursorAfter_of_ok (show recovering p c = .ok (some s) c₁ by simp only [recovering, hc])]
    | error f c₁ =>
      rw [cursorAfter_of_error hc] at hgrows
      cases f with
      | exhausted =>
        rwa [cursorAfter_of_error
          (show recovering p c = .error .exhausted c₁ by simp only [recovering, hc])]
      | error e =>
        rw [cursorAfter_of_ok
          (show recovering p c = .ok none (c₁.record e.token e.cause).synchronize by
            simp only [recovering, hc])]
        rw [Cursor.errors_synchronize, Cursor.record, Array.size_push]
        omega
  related c a c' hc hle := by
    have hgrows := hp.grows c
    cases hp₁ : p c with
    | ok s c₁ =>
      simp only [recovering, hp₁] at hc
      cases hc
      obtain ⟨read, hread, hP⟩ := hp.related c s c' hp₁ hle
      exact ⟨read, hread, s, rfl, hP⟩
    | error f c₁ =>
      rw [cursorAfter_of_error hp₁] at hgrows
      cases f with
      | exhausted =>
        simp only [recovering, hp₁] at hc
        cases hc
      | error e =>
        simp only [recovering, hp₁] at hc
        cases hc
        rw [Cursor.errors_synchronize, Cursor.record, Array.size_push] at hle
        omega

end Parse

end AliasScript
