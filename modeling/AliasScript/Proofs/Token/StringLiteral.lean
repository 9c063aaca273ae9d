import AliasScript.Proofs.Token.Account

/-!
# String literals

A string without quotes is written between two quotes: a backslash twice, a line break as it is or
as a backslash and an `n`, and every other character as it is (`Writes`). The end of a literal is
found without a look at the backslashes, and the backslashes are read without a look at the quotes.
The two agree because a body has a quote only where the string has one.

`unescape_eq_iff` says that a body is read without complaint exactly if it writes what is read, and
`Scan.isLiteral_iff` says the same of sources: the literals of a string are the sources that are
scanned as that string and nothing else.
-/

namespace AliasScript

/-! ### Bodies -/

/-- The characters of a string, and how they may be written between quotes. -/
inductive Writes : (value body : List Char) → Prop
  | done : Writes [] []
  | backslash {value body : List Char} :
      Writes value body → Writes ('\\' :: value) ('\\' :: '\\' :: body)
  | lineBreak {value body : List Char} :
      Writes value body → Writes ('\n' :: value) ('\\' :: 'n' :: body)
  | plain {c : Char} {value body : List Char} :
      c ≠ '\\' → Writes value body → Writes (c :: value) (c :: body)

/-- A body has a quote only where the string has one. -/
theorem Writes.quote_mem_iff {value body : List Char} (h : Writes value body) :
    '"' ∈ body ↔ '"' ∈ value := by
  induction h with
  | done => rfl
  | backslash _ ih | lineBreak _ ih => simpa using ih
  | plain _ _ ih => simp only [List.mem_cons, ih]

theorem unescape_cons {c : Char} (hc : c ≠ '\\') (body : List Char) :
    unescape (c :: body) = (c :: (unescape body).1, (unescape body).2) := by
  rw [unescape.eq_6 c body] <;> intros <;> contradiction

/-- **A body is read without complaint exactly if it writes what is read.** -/
theorem unescape_eq_iff {value body : List Char} :
    unescape body = (value, []) ↔ Writes value body := by
  constructor
  · intro h
    fun_induction unescape body generalizing value with
    | case1 =>
      cases h
      exact .done
    | case2 => cases h
    | case3 body rest unknown hrest ih =>
      cases h
      exact .lineBreak (ih hrest)
    | case4 body rest unknown hrest ih =>
      cases h
      exact .backslash (ih hrest)
    | case5 => cases h
    | case6 c body hlast _ _ hescape rest unknown hrest ih =>
      cases h
      refine .plain (fun hc ↦ ?_) (ih hrest)
      cases body with
      | nil => exact hlast hc rfl
      | cons d body => exact hescape d body hc rfl
  · intro h
    induction h with
    | done => rfl
    | backslash _ ih | lineBreak _ ih => simp [unescape, ih]
    | plain hc _ ih => rw [unescape_cons hc, ih]

/-! ### Pieces -/

namespace Piece

/-- **Quoted text is one piece exactly if no quote is inside of it**, whatever its backslashes
say. -/
theorem split_quoted_iff {body : List Char} :
    split (quoted body).text = [quoted body] ↔ '"' ∉ body := by
  have hnext : next '"' (body ++ ['"']) = afterQuote (body ++ ['"']) := rfl
  rw [text, List.cons_append, split, hnext]
  constructor
  · intro h hmem
    obtain ⟨hpiece, -⟩ := List.cons_eq_cons.1 h
    unfold afterQuote at hpiece
    split at hpiece
    · injection hpiece with hbody
      rw [← hbody] at hmem
      simpa using List.mem_takeWhile_imp hmem
    · cases hpiece
  · intro h
    have hbefore : ∀ c ∈ body, (c != '"') = true := by
      intro c hc
      simpa using fun heq : c = '"' ↦ h (heq ▸ hc)
    simp [afterQuote, List.dropWhile_append_of_pos hbefore, List.takeWhile_append_of_pos hbefore,
      split]

theorem text_ne_nil_of_mem_split {source : List Char} {piece : Piece} (h : piece ∈ split source) :
    piece.text ≠ [] := by
  fun_induction split source with
  | case1 => cases h
  | case2 c rest ih =>
    rcases List.mem_cons.1 h with rfl | h
    · exact next_text_ne_nil c rest
    · exact ih h

/-- A piece that is all of a text is its only piece. -/
theorem split_eq_singleton {source : List Char} {piece : Piece} (h : piece ∈ split source)
    (htext : piece.text = source) : split source = [piece] := by
  obtain ⟨before, after, hsplit⟩ := List.append_of_mem h
  have hsource := text_split source
  rw [hsplit, ← htext, List.flatMap_append, List.flatMap_cons] at hsource
  -- Nothing is left for the others, and no piece is empty.
  have hlength := congrArg List.length hsource
  simp only [List.length_append] at hlength
  have hnone (pieces : List Piece) (hpieces : ∀ p ∈ pieces, p ∈ split source)
      (hlength : (pieces.flatMap text).length = 0) : pieces = [] := by
    refine List.eq_nil_iff_forall_not_mem.2 fun p hp ↦ ?_
    exact text_ne_nil_of_mem_split (hpieces p hp)
      (List.flatMap_eq_nil_iff.1 (List.length_eq_zero_iff.1 hlength) p hp)
  rw [hsplit, hnone before (fun p hp ↦ by simp [hsplit, hp]) (by omega),
    hnone after (fun p hp ↦ by simp [hsplit, hp]) (by omega), List.nil_append]

end Piece

/-! ### Sources -/

/-- The text is a literal of the string. -/
def IsLiteral (s text : String) : Prop :=
  ∃ body, text.toList = '"' :: body ++ ['"'] ∧ Writes s.toList body

/-- Every token comes from a piece of the source. -/
theorem Scan.exists_piece_of_mem {p : Position} {pieces : List Piece} {t : Token}
    (h : t ∈ (ofPieces p pieces).tokens) :
    ∃ q : Position, ∃ piece ∈ pieces, q.token? piece = some t := by
  induction pieces generalizing p with
  | nil => cases h
  | cons piece rest ih =>
    rcases List.mem_append.1 h with h | h
    · exact ⟨p, piece, List.mem_cons_self, by simpa using h⟩
    · obtain ⟨q, piece', hmem, ht⟩ := ih h
      exact ⟨q, piece', List.mem_cons_of_mem _ hmem, ht⟩

/-- Only quoted text becomes a string. -/
theorem Position.eq_quoted_of_token? {p : Position} {piece : Piece} {t : Token} {s : String}
    (h : p.token? piece = some t) (hvalue : t.value = .str s) :
    ∃ body, piece = .quoted body ∧ s = String.ofList (unescape body).1 ∧
      t.lexeme = String.ofList (Piece.quoted body).text := by
  obtain ⟨⟨kind, value⟩, hreads, rfl⟩ := Option.map_eq_some_iff.1 h
  cases hvalue
  cases piece with
  | quoted body =>
    cases hreads
    exact ⟨body, rfl, rfl, rfl⟩
  | word text =>
    simp only [reads] at hreads
    split at hreads <;> cases hreads
  | lineBreak =>
    simp only [reads] at hreads
    split at hreads <;> cases hreads
  | mark kind | number whole fraction => cases hreads
  | blank c | comment text | stray c | openQuote body | openComment text => cases hreads

namespace Scan

variable (index : Nat) {text : String} {body : List Char}

/-- A source that is quoted text is scanned as one string, and what is wrong with it are escapes. -/
theorem ofSource_quoted (h : Piece.split text.toList = [.quoted body]) :
    ∃ t eof, (ofSource index text).all = [t, eof] ∧ t.kind = .string ∧
      t.value = .str (String.ofList (unescape body).1) ∧ t.lexeme = text ∧ eof.kind = .eof ∧
      ((ofSource index text).errors = [] ↔ (unescape body).2 = []) := by
  have htext : (Piece.quoted body).text = text.toList := by
    simpa [h] using Piece.text_split text.toList
  unfold ofSource
  rw [h]
  refine ⟨_, _, rfl, rfl, rfl, ?_, rfl, ?_⟩
  · rw [htext, String.ofList_toList]
  · simp [ofPieces, Position.complaints]

/-- **The literals of a string are the sources that are scanned as that string and nothing else**:
one token whose lexeme is the whole source, then the end, and no complaint. -/
theorem isLiteral_iff (s text : String) :
    '"' ∉ s.toList ∧ IsLiteral s text ↔
      ∃ t eof, (ofSource index text).all = [t, eof] ∧ (ofSource index text).errors = [] ∧
        t.kind = .string ∧ t.value = .str s ∧ t.lexeme = text ∧ eof.kind = .eof := by
  constructor
  · rintro ⟨hs, body, htext, hbody⟩
    have hsplit : Piece.split text.toList = [.quoted body] := by
      rw [htext]
      exact Piece.split_quoted_iff.2 (mt hbody.quote_mem_iff.1 hs)
    obtain ⟨t, eof, hall, hkind, hvalue, hlexeme, heof, herrors⟩ := ofSource_quoted index hsplit
    rw [unescape_eq_iff.2 hbody, String.ofList_toList] at hvalue
    exact ⟨t, eof, hall, herrors.2 (by rw [unescape_eq_iff.2 hbody]), hkind, hvalue, hlexeme, heof⟩
  · rintro ⟨t, eof, hall, herrors, -, hvalue, hlexeme, -⟩
    have hmem : t ∈ (ofSource index text).tokens := by
      have hpair : (ofSource index text).all = [t] ++ [eof] := hall
      obtain ⟨htokens, -⟩ := List.append_inj' hpair rfl
      simp [htokens]
    obtain ⟨q, piece, hpiece, htoken⟩ := exists_piece_of_mem hmem
    obtain ⟨body, rfl, rfl, hquoted⟩ := Position.eq_quoted_of_token? htoken hvalue
    have htext : (Piece.quoted body).text = text.toList := by
      rw [← hlexeme, hquoted, String.toList_ofList]
    have hsplit := Piece.split_eq_singleton hpiece htext
    have hquote : '"' ∉ body := Piece.split_quoted_iff.1 (htext ▸ hsplit)
    obtain ⟨-, -, -, -, -, -, -, hescapes⟩ := ofSource_quoted index hsplit
    have hbody : Writes (unescape body).1 body :=
      unescape_eq_iff.1 (Prod.ext rfl (hescapes.1 herrors))
    rw [IsLiteral, String.toList_ofList]
    exact ⟨mt hbody.quote_mem_iff.2 hquote, body, htext.symm, hbody⟩

end Scan

end AliasScript
