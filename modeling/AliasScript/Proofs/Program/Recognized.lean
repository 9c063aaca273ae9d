import AliasScript.Proofs.Program.Parsed
import AliasScript.Proofs.Program.Recognized.Statement

/-!
# What the grammar recognizes

The levels of nesting recognize more and more: with `n` of them, all that fewer than `n` tokens say.
Since a program is parsed with more levels than it has tokens, every stratified program is what is
parsed from each of its spellings (`Program.parse_of_says`).
-/

namespace AliasScript

namespace Grammar

open Parse

variable {g : Grammar} {n : Nat} {last : Option Token}

theorem bottom_complete (rounds : Nat) : (bottom rounds).Complete 0 where
  le_rounds := Nat.zero_le _
  unary _ _ _ _ _ h := absurd h (Nat.not_lt_zero _)
  ternary _ _ _ _ _ h := absurd h (Nat.not_lt_zero _)
  assignment _ _ _ _ _ h := absurd h (Nat.not_lt_zero _)
  expression _ _ _ _ _ h := absurd h (Nat.not_lt_zero _)
  statement _ _ _ h := absurd h (Nat.not_lt_zero _)
  block _ _ _ h := absurd h (Nat.not_lt_zero _)

theorem above_complete (hg : g.Complete n) (hn : n < g.rounds) : (above g).Complete (n + 1) where
  le_rounds := hn
  unary := recognizes_unaryHere hg
  ternary := recognizes_ternaryHere hg
  assignment := recognizes_assignmentHere hg
  expression := recognizes_expressionHere hg
  statement hs hdecl h hr := leads_statementHere hg hs hdecl h hr
  block hs h hclose hr := leads_blockHere hg hs h hclose (by omega)

theorem rounds_ofDepth (rounds n : Nat) : (ofDepth rounds n).rounds = rounds := by
  induction n with
  | zero => rfl
  | succ n ih => exact ih

/-- **The parsers of every depth are complete up to the depth.** -/
theorem ofDepth_complete {rounds n : Nat} (hn : n ≤ rounds) : (ofDepth rounds n).Complete n := by
  induction n with
  | zero => exact bottom_complete rounds
  | succ n ih =>
    refine above_complete (ih (by omega)) ?_
    rw [rounds_ofDepth]
    exact hn

theorem leads_programFrom (hg : g.Complete n) {program : Program} {r : List Token} {m : Nat}
    (hs : StmtsStratified program) (h : Spells (.stmts program none) r) (hr : r.length < n + 1)
    (hm : r.length < m) : Leads last (programFrom g m) r (pure program) [] := by
  induction m generalizing program r last with
  | zero => omega
  | succ m ih =>
    cases h with
    | noStmts => exact fun _ _ ↦ rfl
    | @stmts s program _ r₁ r₂ h₁ h₂ =>
      obtain ⟨⟨t, rest, rfl, -⟩, -⟩ := starts_stmt hs.1 h₁
      simp only [List.length_cons, List.length_append] at hr hm
      refine (leads_atEnd_not (by simp)).bind_look (.ite_false ?_)
      refine (leads_declaration hg hs.1 ?_ (by simp only [List.length_cons]; omega)).bind
        (ih hs.2 h₂ (by omega) (by omega)).bind_pure
      simpa using h₁

end Grammar

/-- **Every stratified program is parsed from each of its spellings.** -/
theorem Program.parse_of_says {tokens : List Token} {program : Program} (eof : Token)
    (hs : StmtsStratified program) (h : Spells (.stmts program none) tokens) :
    Program.parse tokens eof = .ok program := by
  have hcomplete := Grammar.ofDepth_complete (Nat.le_refl (tokens.length + 1))
  have hleads : Parse.Leads none (Grammar.programFrom _ (tokens.length + 1)) tokens
      (pure program) [] :=
    Grammar.leads_programFrom hcomplete hs h (by omega) (by omega)
  have hparse := hleads eof #[]
  rw [List.append_nil] at hparse
  simp only [Program.parse, hparse]
  rfl

end AliasScript
