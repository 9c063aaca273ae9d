import AliasScript.Token.Scan
import Mathlib.Data.List.Nodup

/-!
# The tokens of a source

Two facts about the tokens that scanning gives. Their indices count up from the index that the scan
starts with (`Scan.pairwise_index`, `Scan.index_lt_nextIndex`), so that an index names one token, in
this source and among all sources scanned before it. And a name is spelled unlike every keyword
(`Token.WellSpelled`), so that nothing that a program declares is called `this` or `super`.
-/

namespace AliasScript

/-! ### Spelling -/

/-- A word is of the kind that its spelling says: a keyword if it is spelled like one, else a name.
-/
def Token.WellSpelled (t : Token) : Prop :=
  t.kind = .identifier ∨ t.kind ∈ Kind.keywords → Kind.ofWord t.lexeme = t.kind

namespace Kind

theorem ofWord_spelling {kind : Kind} (h : kind = .identifier ∨ kind ∈ keywords) :
    ofWord kind.spelling = kind := by
  cases kind <;> first | decide | exact absurd h (by decide)

/-- A word that is a keyword is spelled like it. -/
theorem spelling_of_ofWord {word : String} {kind : Kind} (h : ofWord word = kind)
    (hkind : kind ≠ .identifier) : kind.spelling = word := by
  unfold ofWord at h
  cases hfind : keywords.find? fun kind ↦ kind.spelling == word with
  | none =>
    rw [hfind] at h
    exact absurd h.symm hkind
  | some found =>
    rw [hfind] at h
    cases h
    simpa using List.find?_some hfind

end Kind

namespace Token

/-- What a token says, wherever it stands. -/
def content (t : Token) : Kind × String × Literal :=
  (t.kind, t.lexeme, t.value)

variable {t : Token}

theorem WellSpelled.lexeme_this (h : t.WellSpelled) (hkind : t.kind = .thisWord) :
    t.lexeme = "this" := by
  have hword : Kind.ofWord t.lexeme = .thisWord := by
    rw [h (.inr (by rw [hkind]; decide)), hkind]
  exact (Kind.spelling_of_ofWord hword (by decide)).symm

theorem WellSpelled.lexeme_super (h : t.WellSpelled) (hkind : t.kind = .superWord) :
    t.lexeme = "super" := by
  have hword : Kind.ofWord t.lexeme = .superWord := by
    rw [h (.inr (by rw [hkind]; decide)), hkind]
  exact (Kind.spelling_of_ofWord hword (by decide)).symm

/-- A name is not spelled like a keyword. -/
theorem WellSpelled.lexeme_ne (h : t.WellSpelled) (hkind : t.kind = .identifier) {word : String}
    (hword : Kind.ofWord word ≠ .identifier) : t.lexeme ≠ word := by
  rintro rfl
  exact hword (by rw [h (.inl hkind), hkind])

end Token

/-! ### Tokens of pieces -/

namespace Position

variable {p : Position} {piece : Piece} {t : Token}

/-- What is read as a word is spelled as its kind says. -/
theorem ofWord_of_reads {kind : Kind} {value : Literal} (h : p.reads piece = some (kind, value))
    (hword : kind = .identifier ∨ kind ∈ Kind.keywords) :
    Kind.ofWord (String.ofList piece.text) = kind := by
  cases piece with
  | mark kind' =>
    cases h
    simpa [Piece.text] using Kind.ofWord_spelling hword
  | word text =>
    simp only [reads] at h
    split at h <;> cases h <;> first | assumption | rfl
  | number whole fraction | quoted body =>
    cases h
    exact absurd hword (by decide)
  | lineBreak =>
    simp only [reads, Option.ite_none_right_eq_some] at h
    cases h.2
    exact absurd hword (by decide)
  | blank c | comment text | stray c | openQuote body | openComment text => cases h

/-- A piece that becomes a token takes the next index. -/
theorem token?_eq_some (h : p.token? piece = some t) :
    t.index = p.index ∧ (p.after piece).index = p.index + 1 ∧ t.WellSpelled := by
  obtain ⟨⟨kind, value⟩, hreads, rfl⟩ := Option.map_eq_some_iff.1 h
  exact ⟨rfl, by simp [after, hreads], ofWord_of_reads hreads⟩

theorem index_after_of_token?_eq_none (h : p.token? piece = none) :
    (p.after piece).index = p.index := by
  have hreads : p.reads piece = none := by simpa [token?] using h
  simp [after, hreads]

end Position

namespace Scan

/-- The indices of the tokens count up to that of the end. -/
theorem ofPieces_counts (p : Position) (pieces : List Piece) :
    (ofPieces p pieces).tokens.Pairwise (·.index < ·.index) ∧
      p.index ≤ (ofPieces p pieces).eof.index ∧
      ∀ t ∈ (ofPieces p pieces).tokens,
        p.index ≤ t.index ∧ t.index < (ofPieces p pieces).eof.index ∧ t.WellSpelled := by
  induction pieces generalizing p with
  | nil => exact ⟨.nil, Nat.le_refl _, by simp [ofPieces]⟩
  | cons piece rest ih =>
    obtain ⟨hpairwise, hend, hmem⟩ := ih (p.after piece)
    simp only [ofPieces]
    cases htoken : p.token? piece with
    | none =>
      rw [Position.index_after_of_token?_eq_none htoken] at hend hmem
      exact ⟨hpairwise, hend, hmem⟩
    | some t =>
      obtain ⟨hindex, hafter, hspelled⟩ := Position.token?_eq_some htoken
      rw [hafter] at hend hmem
      refine ⟨List.pairwise_cons.2 ⟨fun t' ht' ↦ ?_, hpairwise⟩, by omega, ?_⟩
      · have := (hmem t' ht').1
        omega
      · intro t' ht'
        rcases List.mem_cons.1 ht' with rfl | ht'
        · exact ⟨by omega, by omega, hspelled⟩
        · have := hmem t' ht'
          exact ⟨by omega, this.2⟩

variable {index : Nat} {source : String} {t : Token}

/-- **The tokens of a source are numbered in their order.** -/
theorem pairwise_index (index : Nat) (source : String) :
    (ofSource index source).tokens.Pairwise (·.index < ·.index) :=
  (ofPieces_counts _ _).1

theorem le_index (h : t ∈ (ofSource index source).tokens) : index ≤ t.index :=
  ((ofPieces_counts _ _).2.2 t h).1

theorem index_lt_nextIndex (h : t ∈ (ofSource index source).tokens) :
    t.index < (ofSource index source).nextIndex :=
  Nat.lt_succ_of_lt ((ofPieces_counts _ _).2.2 t h).2.1

theorem wellSpelled (h : t ∈ (ofSource index source).tokens) : t.WellSpelled :=
  ((ofPieces_counts _ _).2.2 t h).2.2

theorem le_nextIndex (index : Nat) (source : String) : index ≤ (ofSource index source).nextIndex :=
  Nat.le_succ_of_le (ofPieces_counts (.start index) _).2.1

theorem nodup_tokens (index : Nat) (source : String) : (ofSource index source).tokens.Nodup :=
  (pairwise_index index source).imp fun hlt ↦ ne_of_apply_ne Token.index (Nat.ne_of_lt hlt)

/-- Two tokens of a source with one index are one token. -/
theorem eq_of_index_eq {t' : Token} (h : t ∈ (ofSource index source).tokens)
    (h' : t' ∈ (ofSource index source).tokens) (hindex : t.index = t'.index) : t = t' := by
  have hdistinct := (pairwise_index index source).imp fun hlt ↦ Nat.ne_of_lt hlt
  exact List.inj_on_of_nodup_map (List.pairwise_map.2 hdistinct) h h' hindex

end Scan

end AliasScript
