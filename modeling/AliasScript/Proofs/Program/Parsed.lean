import AliasScript.Proofs.Program.Parsed.Statement

/-!
# What the grammar gives

Every program that the grammar gives without an error is stratified and is spelled by the tokens of
its source (`Program.says_of_parse`), so the names in it stand for different tokens of the source
(`Program.covers_of_parse`).

Both are shown together, parser by parser; here the levels of nesting keep the promise one after the
other.
-/

namespace AliasScript

namespace Grammar

open Parse

variable {g : Grammar}

/-! ### Levels of nesting -/

theorem above_sound (hg : g.Sound) : (above g).Sound where
  unary := reads_unaryHere hg
  ternary := reads_ternaryHere hg
  assignment := reads_assignmentHere hg
  expression := reads_expressionHere hg
  statement := reads_statementHere hg
  block := reads_blockHere hg

theorem bottom_sound (rounds : Nat) : (bottom rounds).Sound where
  unary := reads_exhausted
  ternary := reads_exhausted
  assignment := reads_exhausted
  expression := reads_exhausted
  statement := reads_exhausted
  block := reads_exhausted

/-- **The parsers of every depth are sound.** -/
theorem ofDepth_sound (rounds n : Nat) : (ofDepth rounds n).Sound := by
  induction n with
  | zero => exact bottom_sound rounds
  | succ n ih => exact above_sound ih

theorem reads_programFrom (hg : g.Sound) (n : Nat) :
    Reads (programFrom g n) fun read program c ↦ c.rest = [] ∧ ReadStmts read program c := by
  induction n with
  | zero => exact reads_exhausted
  | succ n ih =>
    refine reads_atEnd.bind_spans fun ended ↦ .ite (fun hended ↦ .pure ?_) fun _ ↦ ?_
    · rintro c _ c₁ hspans ⟨rfl, rfl⟩
      have hrest : c₁.rest = c.rest := hspans.rest
      rw [Cursor.atEnd, hrest, List.isEmpty_iff] at hended
      exact ⟨hended, trivial, .noStmts⟩
    · refine (reads_declaration_then (Q := fun rest ↦ rest = []) hg ih).imp ?_
      rintro read program c h _ c₁ - ⟨rfl, -⟩
      exact h

end Grammar

/-- **The grammar gives stratified programs only, spelled by all tokens of the source.** -/
theorem Program.says_of_parse {tokens : List Token} {eof : Token} {program : Program}
    (h : Program.parse tokens eof = .ok program) :
    StmtsStratified program ∧ Spells (.stmts program none) tokens := by
  have hreads := Grammar.reads_programFrom
    (Grammar.ofDepth_sound (tokens.length + 1) (tokens.length + 1)) (tokens.length + 1)
  simp only [Program.parse] at h
  split at h
  · next program' c hok =>
    split at h
    · next hempty =>
      cases h
      have hclean : c.errors.size = 0 := by simpa using hempty
      obtain ⟨read, hspans, hend, hstratified, hspells⟩ := hreads.related _ _ _ hok (by omega)
      have hrest : tokens = read ++ c.rest := hspans.rest
      have hnext : c.next? = none := by simp [Cursor.next?, hend]
      rw [hend, List.append_nil] at hrest
      rw [hnext, ← hrest] at hspells
      exact ⟨hstratified, hspells⟩
    · cases h
  · cases h

/-- **The names of a program are different tokens of its source.** -/
theorem Program.covers_of_parse {tokens : List Token} {eof : Token} {program : Program}
    (h : Program.parse tokens eof = .ok program) : Covers tokens (stmtsNames program) :=
  (says_of_parse h).2.covers

end AliasScript
