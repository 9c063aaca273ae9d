import AliasScript.Program.Grammar
import AliasScript.Proofs.Program.Reading

/-!
# Parsers stay in the input

A parser reads ahead, token by token, and never leaves the input. The first half of the theory says
so for the parsers of expressions; statements and whole programs follow in
`AliasScript.Proofs.Program.Within`.

**Two runs are followed at once.** They start at the same place of the input, but their grammars
may be of different depths, their loops may have different bounds, and what they take to stand
before the first token may differ. Both come to the same end (`Parse.Proceeds`), so nothing of that
matters, as long as the bounds are above the number of tokens that are left.

**The measure** is that number. A loop goes round again, and a parser calls the level of nesting
below, only behind a token that was read, so a parser that is good before fewer than `n` tokens
makes one that is good before `n`. How many tokens a parser has read at least, if it gives a result,
is part of the judgement, since some loops live off what is read inside of them.
-/

namespace AliasScript

/-- The tokens of a source, and the token for its end. -/
structure Input where
  tokens : List Token
  eof : Token

/-- All tokens of the input, with the end. -/
def Input.all (I : Input) : List Token :=
  I.tokens ++ [I.eof]

/-! ### Cursors in the input -/

/-- A cursor stands in the input: what was read and what is left make up the tokens, the token read
last is the last of those that were read, and the errors so far are at tokens of the input. Where
nothing was read, it does not matter which token is taken for the last. -/
structure Cursor.StandsIn (I : Input) (c : Cursor) : Prop where
  eof : c.eof = I.eof
  split : ∃ read before, I.tokens = read ++ c.rest ∧ c.last = read.getLast?.or before
  errors : ∀ e ∈ c.errors, e.token ∈ I.all

namespace Cursor

variable {I : Input} {c c' : Cursor}

/-- Reading a token spans that token. -/
theorem spans_advance {t : Token} {rest : List Token} (h : c.rest = t :: rest) :
    c.Spans [t] c.advance := by
  unfold advance
  rw [h]
  exact ⟨h, rfl⟩

/-- Skipping goes ahead, and ends behind the token that it gives. -/
theorem skip_eq (t : Token) (rest : List Token) : ∃ skipped,
    rest = skipped ++ (skip t rest).2 ∧ (skip t rest).1 = skipped.getLast?.getD t := by
  induction rest generalizing t with
  | nil => exact ⟨[], rfl, rfl⟩
  | cons t' rest ih =>
    unfold skip
    split
    · exact ⟨[], rfl, rfl⟩
    · obtain ⟨skipped, hrest, hlast⟩ := ih t'
      refine ⟨t' :: skipped, congrArg (t' :: ·) hrest, ?_⟩
      rw [hlast, List.getLast?_cons, Option.getD_some]

/-- Going on after an error skips the next token, if there is one. -/
theorem spans_synchronize {t : Token} {rest : List Token} (h : c.rest = t :: rest) :
    ∃ skipped, c.Spans (t :: skipped) c.synchronize := by
  obtain ⟨skipped, hrest, hlast⟩ := skip_eq t rest
  refine ⟨skipped, ?_, ?_⟩
  · unfold synchronize
    rw [h]
    exact congrArg (t :: ·) hrest
  · unfold synchronize
    rw [h, List.getLast?_cons, Option.some_or]
    exact congrArg some hlast

/-- With nothing left there is nothing to skip. -/
theorem synchronize_of_nil (h : c.rest = []) : c.synchronize = c := by
  unfold synchronize
  rw [h]

/-- The end of the input stays where it is. -/
theorem eof_synchronize : c.synchronize.eof = c.eof := by
  unfold synchronize
  split <;> rfl

theorem eof_advance : c.advance.eof = c.eof := by
  unfold advance
  split <;> rfl

/-- Reading records no error. -/
theorem errors_advance : c.advance.errors = c.errors := by
  unfold advance
  split <;> rfl

namespace StandsIn

/-- At the start nothing was read. -/
theorem start (I : Input) (before : Option Token) : StandsIn I ⟨I.tokens, I.eof, before, #[]⟩ :=
  ⟨rfl, ⟨[], before, rfl, rfl⟩, by simp⟩

/-- What is left is a part of the input. -/
theorem length_le (h : c.StandsIn I) : c.rest.length ≤ I.tokens.length := by
  obtain ⟨read, before, hsplit, -⟩ := h.split
  rw [hsplit, List.length_append]
  omega

/-- **The token that is read next stands in the input at the cursor's place.** -/
theorem getElem?_all (h : c.StandsIn I) :
    I.all[I.tokens.length - c.rest.length]? = some c.peek := by
  obtain ⟨read, before, hsplit, -⟩ := h.split
  have hplace : I.tokens.length - c.rest.length = read.length := by
    rw [hsplit, List.length_append]
    omega
  rw [hplace, Input.all, hsplit, List.append_assoc,
    List.getElem?_append_right (Nat.le_refl _), Nat.sub_self, peek, h.eof]
  cases c.rest <;> rfl

/-- The token that is next is one of the input, if only the one for its end. -/
theorem peek_mem (h : c.StandsIn I) : c.peek ∈ I.all :=
  List.mem_of_getElem? h.getElem?_all

/-- Behind the first token, the token read last stands right before the cursor's place. -/
theorem last_eq (h : c.StandsIn I) (hread : c.rest.length < I.tokens.length) :
    c.last = I.all[I.tokens.length - c.rest.length - 1]? := by
  obtain ⟨read, before, hsplit, hlast⟩ := h.split
  have hne : read ≠ [] := by
    rintro rfl
    exact absurd hread (by simp [hsplit])
  have hplace : I.tokens.length - c.rest.length - 1 = read.length - 1 := by
    rw [hsplit, List.length_append]
    omega
  have hlt : read.length - 1 < read.length :=
    Nat.sub_lt (List.length_pos_iff.2 hne) Nat.one_pos
  rw [hlast, hplace, Input.all, hsplit, List.append_assoc, List.getElem?_append_left hlt,
    List.getLast?_eq_getElem?, List.getElem?_eq_getElem hlt, Option.some_or]

/-- A cursor that went ahead still stands in the input. -/
theorem spans (h : c.StandsIn I) {read : List Token} (hspans : c.Spans read c')
    (heof : c'.eof = c.eof) (herrors : c'.errors = c.errors) : c'.StandsIn I where
  eof := heof.trans h.eof
  split := by
    obtain ⟨old, before, hsplit, hlast⟩ := h.split
    refine ⟨old ++ read, before, ?_, ?_⟩
    · rw [hsplit, hspans.rest, List.append_assoc]
    · rw [hspans.last, hlast, List.getLast?_append, Option.or_assoc]
  errors := herrors ▸ h.errors

/-- A cursor in the input does not leave it by reading. -/
theorem advance (h : c.StandsIn I) : c.advance.StandsIn I := by
  cases hrest : c.rest with
  | nil =>
    have hstays : c.advance = c := by
      unfold Cursor.advance
      rw [hrest]
    rwa [hstays]
  | cons t rest => exact h.spans (spans_advance hrest) eof_advance errors_advance

/-- An error that is recorded at a token of the input keeps the cursor in it. -/
theorem record (h : c.StandsIn I) {token : Token} (htoken : token ∈ I.all) (cause : GrammarCause) :
    (c.record token cause).StandsIn I where
  eof := h.eof
  split := h.split
  errors e he := by
    rcases Array.mem_push.1 he with he | rfl
    · exact h.errors e he
    · exact htoken

/-- Skipping to the next statement stays in the input as well. -/
theorem synchronize (h : c.StandsIn I) : c.synchronize.StandsIn I := by
  cases hrest : c.rest with
  | nil => rwa [synchronize_of_nil hrest]
  | cons t rest =>
    obtain ⟨skipped, hspans⟩ := spans_synchronize hrest
    exact h.spans hspans eof_synchronize (errors_synchronize c)

end StandsIn

/-- Two cursors stand at the same place in the input, with the same errors recorded. -/
structure Beside (I : Input) (c c' : Cursor) : Prop where
  left : c.StandsIn I
  right : c'.StandsIn I
  rest : c.rest = c'.rest
  errors : c.errors = c'.errors

namespace Beside

variable (h : c.Beside I c')

include h

/-- Cursors at the same place see the same token next. -/
theorem peek_eq : c.peek = c'.peek := by
  unfold Cursor.peek
  rw [h.rest, h.left.eof, h.right.eof]

theorem check_eq (kind : Kind) : c.check kind = c'.check kind := by
  unfold Cursor.check
  rw [h.rest]

theorem atEnd_eq : c.atEnd = c'.atEnd := by
  unfold Cursor.atEnd
  rw [h.rest]

/-- **Both know the token read last, once one was read.** -/
theorem after_eq (hread : c.rest.length < I.tokens.length) (kind : Kind) :
    c.after kind = c'.after kind := by
  unfold Cursor.after
  rw [h.left.last_eq hread, h.right.last_eq (h.rest ▸ hread), h.rest]

/-- Both go on to the same place, and from then on agree on the token read last. -/
theorem advance : c.advance.Beside I c'.advance where
  left := h.left.advance
  right := h.right.advance
  rest := by
    unfold Cursor.advance
    rw [← h.rest]
    split
    · rfl
    · exact h.rest
  errors := by rw [errors_advance, errors_advance, h.errors]

/-- Both record the same error. -/
theorem record {token : Token} (htoken : token ∈ I.all) (cause : GrammarCause) :
    (c.record token cause).Beside I (c'.record token cause) where
  left := h.left.record htoken cause
  right := h.right.record htoken cause
  rest := h.rest
  errors := congrArg (·.push ⟨token, cause⟩) h.errors

/-- Both skip the same tokens. -/
theorem synchronize : c.synchronize.Beside I c'.synchronize where
  left := h.left.synchronize
  right := h.right.synchronize
  rest := by
    unfold Cursor.synchronize
    rw [← h.rest]
    split
    · exact h.rest
    · rfl
  errors := by rw [errors_synchronize, errors_synchronize, h.errors]

end Beside

end Cursor

/-! ### Parsers that proceed -/

namespace Parse

variable {I : Input} {α β : Type} {n m k j : Nat} {p p' : Parse α} {next next' : α → Parse β}

/-- **What two runs come to** that started before `left` tokens: both give the same value behind at
least `k` of them, or both fail with the same error, which is at a token of the input. Neither has
run out of its bounds. -/
inductive Outcome (I : Input) (left k : Nat) :
    EStateM.Result ParseFailure Cursor α → EStateM.Result ParseFailure Cursor α → Prop
  | ok {a : α} {d d' : Cursor} : d.Beside I d' → d.rest.length + k ≤ left →
      Outcome I left k (.ok a d) (.ok a d')
  | error {e : GrammarError} {d d' : Cursor} : d.Beside I d' → d.rest.length ≤ left →
      e.token ∈ I.all → Outcome I left k (.error (.error e) d) (.error (.error e) d')

/-- **Before fewer than `n` tokens both parsers come to the same end.** -/
def Proceeds (I : Input) (n k : Nat) (p p' : Parse α) : Prop :=
  ∀ c c', Cursor.Beside I c c' → c.rest.length < n → Outcome I c.rest.length k (p c) (p' c')

/-- The number of tokens that were read may be counted from an earlier place, and fewer of them. -/
theorem Outcome.mono {left left' : Nat} {r r' : EStateM.Result ParseFailure Cursor α}
    (h : Outcome I left k r r') (hleft : left + j ≤ left' + k) (hle : left ≤ left') :
    Outcome I left' j r r' := by
  cases h with
  | ok hd hk => exact .ok hd (by omega)
  | error hd hk he => exact .error hd (by omega) he

/-- Sequences: the second parser starts where the first has ended. -/
theorem Outcome.bind {left : Nat} {c c' : Cursor} (h : Outcome I left k (p c) (p' c'))
    (hnext : ∀ a d d', d.Beside I d' → d.rest.length + k ≤ left →
      Outcome I d.rest.length j (next a d) (next' a d')) :
    Outcome I left (k + j) ((p >>= next) c) ((p' >>= next') c') := by
  show Outcome I left (k + j) (EStateM.bind p next c) (EStateM.bind p' next' c')
  unfold EStateM.bind
  generalize p c = r at h
  generalize p' c' = r' at h
  cases h with
  | ok hd hk => exact (hnext _ _ _ hd hk).mono (by omega) (by omega)
  | error hd hk he => exact .error hd hk he

namespace Proceeds

/-- A parser that is good before more tokens is good before fewer. -/
theorem mono (h : Proceeds I n k p p') (hn : m ≤ n) (hk : j ≤ k) : Proceeds I m j p p' :=
  fun c c' hc hlt ↦ (h c c' hc (by omega)).mono (by omega) (Nat.le_refl _)

/-- With fewer tokens ahead both come to the same end all the more. -/
theorem before (h : Proceeds I n k p p') (hn : m ≤ n) : Proceeds I m k p p' :=
  h.mono hn (Nat.le_refl k)

/-- It need not be known how many tokens were read. -/
theorem uncounted (h : Proceeds I n k p p') : Proceeds I n 0 p p' :=
  h.mono (Nat.le_refl n) (Nat.zero_le k)

/-- Before no number of tokens at all there is nothing to show. -/
theorem zero : Proceeds I 0 k p p' :=
  fun _ _ _ hlt ↦ absurd hlt (Nat.not_lt_zero _)

theorem pure (a : α) : Proceeds I n 0 (Pure.pure a) (Pure.pure a) :=
  fun _ _ hc _ ↦ .ok hc (Nat.le_refl _)

/-- **Parsers one behind the other**, if no token has to be read in the second for it to be good. -/
theorem bind (h : Proceeds I n 0 p p') (hnext : ∀ a, Proceeds I n k (next a) (next' a)) :
    Proceeds I n k (p >>= next) (p' >>= next') := by
  intro c c' hc hlt
  have hboth := (h c c' hc hlt).bind (j := k) fun a d d' hd hle ↦ hnext a d d' hd (by omega)
  rwa [Nat.zero_add] at hboth

/-- **Behind a parser that has read a token, fewer are left.** -/
theorem bindRead (h : Proceeds I (n + 1) 1 p p') (hnext : ∀ a, Proceeds I n 0 (next a) (next' a)) :
    Proceeds I (n + 1) 1 (p >>= next) (p' >>= next') :=
  fun c c' hc hlt ↦ (h c c' hc hlt).bind fun a d d' hd hle ↦ hnext a d d' hd (by omega)

/-- What is made of a result does not matter. -/
theorem map {f : α → β} (h : Proceeds I n k p p') : Proceeds I n k (f <$> p) (f <$> p') :=
  fun c c' hc hlt ↦ (h c c' hc hlt).bind (j := 0) fun a _ _ hd _ ↦ .ok (a := f a) hd (Nat.le_refl _)

/-- A choice that both runs make alike. -/
theorem ite {b : Prop} {_ : Decidable b} {q q' : Parse α} (hp : b → Proceeds I n k p p')
    (hq : ¬ b → Proceeds I n k q q') :
    Proceeds I n k (if b then p else q) (if b then p' else q') := by
  by_cases h : b
  · rw [if_pos h, if_pos h]
    exact hp h
  · rw [if_neg h, if_neg h]
    exact hq h

/-- A look at the cursors. They are all that the two runs may differ in. -/
theorem get {next next' : Cursor → Parse β}
    (h : ∀ c c', Cursor.Beside I c c' → c.rest.length < n → Proceeds I n k (next c) (next' c')) :
    Proceeds I n k (MonadState.get >>= next) (MonadState.get >>= next') :=
  fun c c' hc hlt ↦ h c c' hc hlt c c' hc hlt

end Proceeds

/-! ### The first parsers -/

/-- Both fail at the same token, so any number of tokens may be claimed for a result. -/
theorem proceeds_failHere (cause : GrammarCause) :
    Proceeds I n k (failHere cause : Parse α) (failHere cause) := by
  intro c c' hc _
  show Outcome I _ _ (.error (.error ⟨c.peek, cause⟩) c) (.error (.error ⟨c'.peek, cause⟩) c')
  rw [← hc.peek_eq]
  exact .error hc (Nat.le_refl _) hc.left.peek_mem

/-- An error is recorded at a token that was read. -/
theorem proceeds_record {token : Token} (htoken : token ∈ I.all) (cause : GrammarCause) :
    Proceeds I n 0 (record token cause) (record token cause) :=
  fun _ _ hc _ ↦ .ok (hc.record htoken cause) (Nat.le_refl _)

/-- Looking at the next token reads nothing. -/
theorem proceeds_check (kind : Kind) : Proceeds I n 0 (check kind) (check kind) := by
  refine .get fun c c' hc _ ↦ ?_
  rw [hc.check_eq]
  exact .pure _

theorem proceeds_atEnd : Proceeds I n 0 atEnd atEnd := by
  refine .get fun c c' hc _ ↦ ?_
  rw [hc.atEnd_eq]
  exact .pure _

/-- A token that passes the test is read. -/
theorem acceptIf_of_test {test : Kind → Bool} {c : Cursor} {t : Token} {rest : List Token}
    (hrest : c.rest = t :: rest) (ht : test t.kind = true) :
    acceptIf test c = .ok (some t) c.advance := by
  obtain ⟨_, eof, last, errors⟩ := c
  subst hrest
  exact (acceptIf_cons ..).trans (if_pos ht)

/-- A token that does not pass is left. -/
theorem acceptIf_of_not {test : Kind → Bool} {c : Cursor}
    (h : ∀ t ∈ c.rest.head?, test t.kind = false) : acceptIf test c = .ok none c := by
  obtain ⟨_ | ⟨t, rest⟩, eof, last, errors⟩ := c
  · rfl
  · exact (acceptIf_cons ..).trans (if_neg (by simp [h t rfl]))

/-- **Behind an optional token fewer tokens are left**, and without it all of them. -/
theorem proceeds_acceptIf {test : Kind → Bool} {next next' : Option Token → Parse β} (hk : k ≤ 1)
    (hsome : ∀ t ∈ I.all, Proceeds I n 0 (next (some t)) (next' (some t)))
    (hnone : Proceeds I (n + 1) k (next none) (next' none)) :
    Proceeds I (n + 1) k (acceptIf test >>= next) (acceptIf test >>= next') := by
  intro c c' hc hlt
  by_cases hnot : ∀ t ∈ c.rest.head?, test t.kind = false
  · rw [bind_of_ok (acceptIf_of_not hnot), bind_of_ok (acceptIf_of_not (hc.rest ▸ hnot))]
    exact hnone c c' hc hlt
  · -- Some token is next, and it passes the test.
    cases hrest : c.rest with
    | nil => exact absurd (by simp [hrest]) hnot
    | cons t rest =>
      have ht : test t.kind = true := by simpa [hrest] using hnot
      have hread : c.advance.rest.length + 1 = (t :: rest).length := by
        simpa [hrest] using (congrArg List.length (Cursor.spans_advance hrest).rest).symm
      have hmem : t ∈ I.all := by
        have hpeek := hc.left.peek_mem
        rwa [Cursor.peek, hrest] at hpeek
      rw [bind_of_ok (acceptIf_of_test hrest ht),
        bind_of_ok (acceptIf_of_test (hc.rest ▸ hrest) ht)]
      rw [hrest] at hlt
      exact (hsome t hmem _ _ hc.advance (by omega)).mono (by omega) (by omega)

/-- An optional token where it does not matter that it was read. -/
theorem proceeds_accepted {test : Kind → Bool} {next next' : Option Token → Parse β}
    (hsome : ∀ t ∈ I.all, Proceeds I n 0 (next (some t)) (next' (some t)))
    (hnone : Proceeds I n 0 (next none) (next' none)) :
    Proceeds I n 0 (acceptIf test >>= next) (acceptIf test >>= next') := by
  cases n with
  | zero => exact .zero
  | succ n =>
    exact proceeds_acceptIf (Nat.zero_le 1) (fun t ht ↦ (hsome t ht).before (Nat.le_succ n)) hnone

/-- A token that is required is read, or the parser fails. -/
theorem advances_expect (kind : Kind) (cause : GrammarCause) :
    Proceeds I n 1 (expect kind cause) (expect kind cause) := by
  cases n with
  | zero => exact .zero
  | succ n => exact proceeds_acceptIf (Nat.le_refl 1) (fun t _ ↦ .pure t) (proceeds_failHere cause)

theorem proceeds_expect (kind : Kind) (cause : GrammarCause) :
    Proceeds I n 0 (expect kind cause) (expect kind cause) :=
  (advances_expect (n := n) kind cause).uncounted

/-- The end of a statement. Whether a brace was read last may only be asked behind some token. -/
theorem proceeds_terminator (hn : n ≤ I.tokens.length) (cause : GrammarCause) :
    Proceeds I n 0 (terminator cause) (terminator cause) := by
  refine proceeds_accepted (fun _ _ ↦ .pure ()) (.get fun c c' hc hlt ↦ ?_)
  rw [hc.check_eq, hc.check_eq, hc.atEnd_eq, hc.after_eq (by omega)]
  exact .ite (fun _ ↦ .pure ()) fun _ ↦ proceeds_failHere cause

/-- Too many items of a sequence are recorded in both runs. -/
theorem proceeds_recordIf {b : Prop} {_ : Decidable b} {cause : GrammarCause}
    {next next' : Unit → Parse α} (h : Proceeds I n k (next ()) (next' ())) :
    Proceeds I n k (if b then (do let c ← get; let u ← record c.peek cause; next u) else next ())
      (if b then (do let c ← get; let u ← record c.peek cause; next' u) else next' ()) := by
  refine .ite (fun _ ↦ .get fun c c' hc _ ↦ ?_) fun _ ↦ h
  rw [← hc.peek_eq]
  exact .bind (proceeds_record hc.left.peek_mem cause) fun _ ↦ h

end Parse

/-! ### Operators -/

namespace Grammar

open Parse

variable {I : Input} {n m m' : Nat}

/-- A loop goes round as long as operators are read, so as many rounds as tokens are enough. -/
theorem proceeds_chainFrom {level : Level} {operand operand' : Parse Expr}
    (h : Proceeds I n 1 operand operand') (hm : n ≤ m) (hm' : n ≤ m') (left : Expr) :
    Proceeds I n 0 (chainFrom level operand m left) (chainFrom level operand' m' left) := by
  induction m generalizing n m' left with
  | zero =>
    obtain rfl := Nat.le_zero.1 hm
    exact .zero
  | succ m ih =>
    obtain _ | n := n
    · exact .zero
    obtain _ | m' := m'
    · omega
    refine proceeds_acceptIf (Nat.zero_le 1) (fun operator _ ↦ ?_) (.pure left)
    have hfewer := h.before (Nat.le_succ n)
    exact .bind hfewer.uncounted fun right ↦ ih hfewer (by omega) (by omega) _

/-- **A chain of operators is bounded by the tokens that are left**, since each round reads its
operator. -/
theorem proceeds_chain {level : Level} {operand operand' : Parse Expr}
    (h : Proceeds I (n + 1) 1 operand operand') (hm : n ≤ m) (hm' : n ≤ m') :
    Proceeds I (n + 1) 1 (chain m level operand) (chain m' level operand') :=
  .bindRead h fun left ↦ proceeds_chainFrom (h.before (Nat.le_succ n)) hm hm' left

/-- The levels of operators, each with its own bound. -/
theorem proceeds_ladder {operand operand' : Parse Expr}
    (h : Proceeds I (n + 1) 1 operand operand') (hm : n ≤ m) (hm' : n ≤ m') (levels : List Level) :
    Proceeds I (n + 1) 1 (ladder m operand levels) (ladder m' operand' levels) := by
  induction levels with
  | nil => exact h
  | cons level tighter ih => exact proceeds_chain ih hm hm'

/-! ### Expressions -/

/-- The parsers for what is nested inside, and the bounds on loops, are good before fewer than `n`
tokens. -/
structure Proceeds (I : Input) (n : Nat) (g g' : Grammar) : Prop where
  rounds : n < g.rounds
  rounds' : n < g'.rounds
  unary : Parse.Proceeds I n 1 g.unary g'.unary
  ternary : Parse.Proceeds I n 1 g.ternary g'.ternary
  assignment : Parse.Proceeds I n 1 g.assignment g'.assignment
  expression : Parse.Proceeds I n 1 g.expression g'.expression
  statement : Parse.Proceeds I n 1 g.statement g'.statement
  block : Parse.Proceeds I n 1 g.block g'.block

/-- Each parameter is read before the next, so the list ends before its bound. -/
theorem proceeds_parametersFrom (hm : n ≤ m) (hm' : n ≤ m') (count : Nat) :
    Parse.Proceeds I n 0 (parametersFrom m count) (parametersFrom m' count) := by
  induction m generalizing n m' count with
  | zero =>
    obtain rfl := Nat.le_zero.1 hm
    exact .zero
  | succ m ih =>
    obtain _ | n := n
    · exact .zero
    obtain _ | m' := m'
    · omega
    unfold parametersFrom
    refine proceeds_recordIf (.uncounted (.bindRead (advances_expect _ _) fun parameter ↦ ?_))
    refine proceeds_accepted (fun _ _ ↦ ?_) (.pure _)
    exact .bind (ih (by omega) (by omega) _) fun _ ↦ .pure _

section Nested

variable {g g' : Grammar} (hg : g.Proceeds I n g')

include hg

/-- Parentheses around the parameters. -/
theorem proceeds_parameterList (opening : GrammarCause) :
    Parse.Proceeds I n 0 (parameterList g opening) (parameterList g' opening) := by
  refine .bind (proceeds_expect _ _) fun _ ↦ .bind (proceeds_check _) fun closed ↦ ?_
  have hrest (parameters : List Token) : Parse.Proceeds I n 0
      (do let _ ← expect .rightParen .parametersEnd; pure parameters)
      (do let _ ← expect .rightParen .parametersEnd; pure parameters) :=
    .bind (proceeds_expect _ _) fun _ ↦ .pure _
  exact .ite (fun _ ↦ .bind (.pure _) hrest) fun _ ↦
    .bind (proceeds_parametersFrom (Nat.le_of_lt hg.rounds) (Nat.le_of_lt hg.rounds') 0) hrest

/-- A body is a block of the level of nesting below. -/
theorem proceeds_functionBody (opening : GrammarCause) :
    Parse.Proceeds I n 0 (functionBody g opening) (functionBody g' opening) :=
  .bind (proceeds_expect _ _) fun _ ↦ hg.block.uncounted

/-- A function, with its name or without. -/
theorem proceeds_functionFrom (name : Option Token) (opening : GrammarCause) :
    Parse.Proceeds I n 0 (functionFrom g name opening) (functionFrom g' name opening) :=
  .bind (proceeds_parameterList hg opening) fun _ ↦
    .bind (proceeds_functionBody hg _) fun _ ↦ .pure _

/-- A method may be a getter, which has no parameters. -/
theorem proceeds_methodFrom (name : Token) :
    Parse.Proceeds I n 0 (methodFrom g name) (methodFrom g' name) := by
  refine .bind (proceeds_check _) fun listed ↦ ?_
  have hrest (parameters : Option (List Token)) : Parse.Proceeds I n 0
      (do let body ← functionBody g .methodBody; pure (Function.mk (some name) parameters body))
      (do let body ← functionBody g' .methodBody; pure (Function.mk (some name) parameters body)) :=
    .bind (proceeds_functionBody hg _) fun _ ↦ .pure _
  exact .ite (fun _ ↦ .bind (proceeds_parameterList hg _).map hrest) fun _ ↦ .bind (.pure _) hrest

/-- Not every element has a comma behind it, so the loop lives off the elements themselves. -/
theorem proceeds_elementsFrom {n' : Nat} (hn : n' ≤ n) (hm : n' ≤ m) (hm' : n' ≤ m') :
    Parse.Proceeds I n' 0 (elementsFrom g m) (elementsFrom g' m') := by
  induction m generalizing n' m' with
  | zero =>
    obtain rfl := Nat.le_zero.1 hm
    exact .zero
  | succ m ih =>
    obtain _ | n' := n'
    · exact .zero
    obtain _ | m' := m'
    · omega
    refine proceeds_acceptIf (Nat.zero_le 1) (fun _ _ ↦ .pure _)
      (.bind proceeds_atEnd fun ended ↦ ?_)
    have hrest : Parse.Proceeds I (n' + 1) 0
        (do
          let element ← g.assignment
          unless ← Parse.check .rightBracket do
            let _ ← Parse.expect .comma .elementSeparator
          return element :: (← elementsFrom g m))
        (do
          let element ← g'.assignment
          unless ← Parse.check .rightBracket do
            let _ ← Parse.expect .comma .elementSeparator
          return element :: (← elementsFrom g' m')) := by
      refine .uncounted (.bindRead (hg.assignment.before hn) fun _ ↦
        .bind (proceeds_check _) fun closed ↦ ?_)
      refine .ite (fun _ ↦ ?_) fun _ ↦ .bind (proceeds_expect _ _) fun _ ↦ ?_
      all_goals exact .bind (ih (by omega) (by omega) (by omega)) fun _ ↦ .pure _
    exact .ite (fun _ ↦ .bind (proceeds_failHere _) fun _ ↦ hrest) fun _ ↦ hrest

/-- Each argument is read before the next. -/
theorem proceeds_argumentsFrom {n' : Nat} (hn : n' ≤ n) (hm : n' ≤ m) (hm' : n' ≤ m')
    (count : Nat) :
    Parse.Proceeds I n' 0 (argumentsFrom g m count) (argumentsFrom g' m' count) := by
  induction m generalizing n' m' count with
  | zero =>
    obtain rfl := Nat.le_zero.1 hm
    exact .zero
  | succ m ih =>
    obtain _ | n' := n'
    · exact .zero
    obtain _ | m' := m'
    · omega
    unfold argumentsFrom
    refine proceeds_recordIf (.uncounted (.bindRead (hg.assignment.before hn) fun argument ↦ ?_))
    refine proceeds_accepted (fun _ _ ↦ ?_) (.pure _)
    exact .bind (ih (by omega) (by omega) (by omega) _) fun _ ↦ .pure _

/-- A call is read up to its closing parenthesis. -/
theorem proceeds_callFrom (callee : Expr) :
    Parse.Proceeds I n 0 (callFrom g callee) (callFrom g' callee) := by
  refine .bind (proceeds_check _) fun closed ↦ ?_
  have hrest (arguments : List Expr) : Parse.Proceeds I n 0
      (do let paren ← expect .rightParen .argumentsEnd; pure (Expr.call callee paren arguments))
      (do let paren ← expect .rightParen .argumentsEnd; pure (Expr.call callee paren arguments)) :=
    .bind (proceeds_expect _ _) fun _ ↦ .pure _
  exact .ite (fun _ ↦ .bind (.pure _) hrest) fun _ ↦
    .bind (proceeds_argumentsFrom hg (Nat.le_refl _) (Nat.le_of_lt hg.rounds)
      (Nat.le_of_lt hg.rounds') 0) hrest

/-- What is nested in an operand is of the level below, behind the token that was read. -/
theorem proceeds_primaryFrom (t : Token) :
    Parse.Proceeds I n 0 (primaryFrom g t) (primaryFrom g' t) := by
  unfold primaryFrom
  split
  · exact .pure _
  · exact .pure _
  · exact .pure _
  · exact .pure _
  · exact .pure _
  · exact .map (proceeds_functionFrom hg none _)
  · exact .map (proceeds_elementsFrom hg (Nat.le_refl _) (Nat.le_of_lt hg.rounds)
      (Nat.le_of_lt hg.rounds'))
  · exact .bind hg.expression.uncounted fun _ ↦ .bind (proceeds_expect _ _) fun _ ↦ .pure _
  · exact .pure _
  · exact .pure _
  · exact .bind (proceeds_expect _ _) fun _ ↦ .bind (proceeds_expect _ _) fun _ ↦ .pure _

/-- **An operand reads at least one token.** -/
theorem proceeds_primary : Parse.Proceeds I (n + 1) 1 (primary g) (primary g') :=
  proceeds_acceptIf (Nat.le_refl 1) (fun t _ ↦ proceeds_primaryFrom hg t) (proceeds_failHere _)

/-- Each round of calls, subscripts and properties reads its first token. -/
theorem proceeds_postfixFrom {n' : Nat} (hn : n' ≤ n) (hm : n' ≤ m) (hm' : n' ≤ m') (e : Expr) :
    Parse.Proceeds I n' 0 (postfixFrom g m e) (postfixFrom g' m' e) := by
  induction m generalizing n' m' e with
  | zero =>
    obtain rfl := Nat.le_zero.1 hm
    exact .zero
  | succ m ih =>
    obtain _ | n' := n'
    · exact .zero
    obtain _ | m' := m'
    · omega
    have hagain (e : Expr) : Parse.Proceeds I n' 0 (postfixFrom g m e) (postfixFrom g' m' e) :=
      ih (by omega) (by omega) (by omega) e
    refine proceeds_acceptIf (Nat.zero_le 1) (fun t _ ↦ ?_) (.pure e)
    have hfewer : n' ≤ n := Nat.le_of_succ_le hn
    dsimp only
    split
    · exact .bind ((proceeds_callFrom hg e).before hfewer) hagain
    · exact .bind (proceeds_expect _ _) fun _ ↦ hagain _
    · exact .bind (hg.assignment.mono hfewer (Nat.zero_le 1)) fun _ ↦
        .bind (proceeds_expect _ _) fun _ ↦ hagain _

/-- An operand with what is behind it. -/
theorem proceeds_postfixExpr : Parse.Proceeds I (n + 1) 1 (postfixExpr g) (postfixExpr g') :=
  .bindRead (proceeds_primary hg) fun e ↦
    proceeds_postfixFrom hg (Nat.le_refl _) (Nat.le_of_lt hg.rounds) (Nat.le_of_lt hg.rounds') e

/-- An operator is read before the operand of the level below. -/
theorem proceeds_unaryHere : Parse.Proceeds I (n + 1) 1 (unaryHere g) (unaryHere g') := by
  refine proceeds_acceptIf (Nat.le_refl 1) (fun operator hoperator ↦ ?_) (proceeds_postfixExpr hg)
  refine .bind hg.unary.uncounted fun operand ↦ ?_
  refine .ite (fun _ ↦ .ite (fun _ ↦ .pure _) fun _ ↦ ?_) fun _ ↦ .pure _
  exact .bind (proceeds_record hoperator _) fun _ ↦ .pure _

theorem proceeds_operation : Parse.Proceeds I (n + 1) 1 (operation g) (operation g') :=
  proceeds_ladder (proceeds_unaryHere hg) (Nat.le_of_lt hg.rounds) (Nat.le_of_lt hg.rounds') levels

/-- A conditional expression reads at least its condition. -/
theorem proceeds_ternaryHere : Parse.Proceeds I (n + 1) 1 (ternaryHere g) (ternaryHere g') := by
  refine .bindRead (proceeds_operation hg) fun condition ↦
    proceeds_accepted (fun question _ ↦ ?_) (.pure _)
  have hmiddle := (proceeds_operation hg).mono (Nat.le_succ n) (Nat.zero_le 1)
  exact .bind hmiddle fun _ ↦ .bind (proceeds_expect _ _) fun _ ↦
    .bind hg.ternary.uncounted fun _ ↦ .pure _

/-- An assignment reads at least its target. -/
theorem proceeds_assignmentHere :
    Parse.Proceeds I (n + 1) 1 (assignmentHere g) (assignmentHere g') := by
  refine .bindRead (proceeds_ternaryHere hg) fun target ↦
    proceeds_accepted (fun equal hequal ↦ ?_) (.pure _)
  refine .bind hg.assignment.uncounted fun value ↦ ?_
  split
  · exact .pure _
  · exact .bind (proceeds_record hequal _) fun _ ↦ .pure _

/-- So every expression reads at least one token. -/
theorem proceeds_expressionHere :
    Parse.Proceeds I (n + 1) 1 (expressionHere g) (expressionHere g') :=
  proceeds_chain (proceeds_assignmentHere hg) (Nat.le_of_lt hg.rounds) (Nat.le_of_lt hg.rounds')

end Nested

end Grammar

end AliasScript
