import AliasScript.Proofs.Token.Account

/-!
# Scanning again

The tokens of a source alone determine what scanning gives: their lexemes, with single blanks
between them, are scanned to the same tokens (`Scan.respaced_eq`).

There are two sides to this. Cutting looks at characters: a piece that became a token is cut again
wherever the source ends behind it or a blank follows (`Piece.Separable`), so the respaced source
has the pieces of the tokens and blanks between them. Making tokens of pieces looks at the open
parentheses and the last token only (`Position.SameReading`), and pieces that become no tokens
change neither.
-/

namespace AliasScript

namespace Piece

/-! ### Pieces before a blank -/

/-- Nothing follows, or a blank. -/
def SetOff (rest : List Char) : Prop :=
  ∀ c ∈ rest.head?, c = ' '

/-- The piece is cut as it is wherever nothing or a blank follows. -/
def Separable (piece : Piece) : Prop :=
  ∃ c tail, piece.text = c :: tail ∧ ∀ rest, SetOff rest → next c (tail ++ rest) = (piece, rest)

/-- The pieces that may become tokens. -/
def isToken : Piece → Bool
  | mark _ | word _ | number _ _ | quoted _ | lineBreak => true
  | _ => false

section SetOff

variable {rest : List Char} (h : SetOff rest)

include h

/-- What is set off by a space starts with no other character. -/
theorem SetOff.head?_ne {c : Char} (hc : c ≠ ' ') : rest.head? ≠ some c :=
  fun hhead ↦ hc (h c hhead)

/-- A run of characters goes no further than the blank. -/
theorem SetOff.takeWhile_append {p : Char → Bool} (hp : p ' ' = false) {run : List Char}
    (hrun : ∀ c ∈ run, p c) :
    (run ++ rest).takeWhile p = run ∧ (run ++ rest).dropWhile p = rest := by
  have hstop : rest.takeWhile p = [] ∧ rest.dropWhile p = rest := by
    cases rest with
    | nil => exact ⟨rfl, rfl⟩
    | cons c rest =>
      cases h c rfl
      simp [hp]
  rw [List.takeWhile_append_of_pos hrun, List.dropWhile_append_of_pos hrun, hstop.1, hstop.2,
    List.append_nil]
  exact ⟨rfl, rfl⟩

end SetOff

/-- A slash that is a token is an operator, and a space may follow it. -/
theorem separable_afterSlash {rest : List Char} (h : (afterSlash rest).1.isToken = true)
    (hnext : ∀ rest, next '/' rest = afterSlash rest) : (afterSlash rest).1.Separable := by
  unfold afterSlash at h ⊢
  split at h
  · cases h
  · split at h <;> cases h
  · refine ⟨'/', [], rfl, fun rest' hrest ↦ (hnext _).trans ?_⟩
    rw [List.nil_append]
    unfold afterSlash
    split
    · exact absurd rfl (hrest.head?_ne (c := '/') (by decide))
    · exact absurd rfl (hrest.head?_ne (c := '*') (by decide))
    · rfl

/-- A string may be followed by a space, since it ends in its quote. -/
theorem separable_afterQuote {rest : List Char} (h : (afterQuote rest).1.isToken = true)
    (hnext : ∀ rest, next '"' rest = afterQuote rest) : (afterQuote rest).1.Separable := by
  unfold afterQuote at h ⊢
  split at h
  · refine ⟨'"', rest.takeWhile (· != '"') ++ ['"'], rfl, fun rest' _ ↦ (hnext _).trans ?_⟩
    have hbody : ∀ c ∈ rest.takeWhile (· != '"'), (c != '"') = true :=
      fun _ hc ↦ List.mem_takeWhile_imp (p := fun c ↦ c != '"') hc
    simp only [afterQuote, List.append_assoc, List.singleton_append,
      List.dropWhile_append_of_pos hbody, List.takeWhile_append_of_pos hbody]
    simp
  · cases h

section Digits

variable {c : Char} {run rest : List Char} (hrun : ∀ c ∈ run, c.isDigit = true)

include hrun

/-- A number ends before a space. -/
theorem afterDigit_whole (h : SetOff rest) :
    afterDigit c (run ++ rest) = (number (c :: run) [], rest) := by
  obtain ⟨htake, hdrop⟩ := h.takeWhile_append (by decide) hrun
  simp only [afterDigit, htake, hdrop]
  split
  · exact absurd rfl (h.head?_ne (by decide))
  · rfl

/-- So does a number with a fraction. -/
theorem afterDigit_fraction {d : Char} {more : List Char} (hd : d.isDigit = true)
    (hmore : ∀ c ∈ more, c.isDigit = true) (h : SetOff rest) :
    afterDigit c (run ++ '.' :: d :: (more ++ rest)) = (number (c :: run) (d :: more), rest) := by
  obtain ⟨htake, hdrop⟩ := h.takeWhile_append (by decide) hmore
  have hpoint : Char.isDigit '.' = false := by decide
  simp only [afterDigit, List.takeWhile_append_of_pos hrun, List.dropWhile_append_of_pos hrun,
    List.takeWhile_cons, List.dropWhile_cons, hpoint, hd, htake, hdrop, if_true,
    List.append_nil, Bool.false_eq_true, if_false]

end Digits

/-- A number is separable, whether it has a fraction or not. -/
theorem separable_afterDigit {c : Char} {rest : List Char}
    (hnext : ∀ rest, next c rest = afterDigit c rest) : (afterDigit c rest).1.Separable := by
  have hrun : ∀ d ∈ rest.takeWhile Char.isDigit, d.isDigit = true :=
    fun _ hd ↦ List.mem_takeWhile_imp hd
  have hwhole : Separable (number (c :: rest.takeWhile Char.isDigit) []) :=
    ⟨c, rest.takeWhile Char.isDigit, rfl,
      fun rest' hrest ↦ (hnext _).trans (afterDigit_whole hrun hrest)⟩
  unfold afterDigit
  split
  · next d after _ =>
    split
    · next hd =>
      refine ⟨c, rest.takeWhile Char.isDigit ++ '.' :: d :: after.takeWhile Char.isDigit, rfl,
        fun rest' hrest ↦ (hnext _).trans ?_⟩
      have hfraction := afterDigit_fraction (c := c) hrun hd
        (fun _ hd ↦ List.mem_takeWhile_imp hd : ∀ d ∈ after.takeWhile Char.isDigit, _) hrest
      simpa using hfraction
    · exact hwhole
  · exact hwhole

/-- **A piece that may become a token is separable.** -/
theorem separable_next {c : Char} {rest : List Char} (h : (next c rest).1.isToken = true) :
    (next c rest).1.Separable := by
  cases starts c with
  | single kind spelled next_eq =>
    rw [next_eq]
    exact ⟨c, [], spelled, fun rest _ ↦ next_eq rest⟩
  | lengthened short long spelled spelledLong next_eq next_equals =>
    by_cases hequals : rest.head? = some '='
    · obtain ⟨after, rfl⟩ := List.head?_eq_some_iff.1 hequals
      rw [next_equals]
      exact ⟨c, ['='], spelledLong, fun rest _ ↦ next_equals rest⟩
    · rw [next_eq rest hequals]
      exact ⟨c, [], spelled, fun rest hrest ↦ next_eq rest (hrest.head?_ne (by decide))⟩
  | slash c_eq next_eq =>
    subst c_eq
    rw [next_eq] at h ⊢
    exact separable_afterSlash h next_eq
  | quote c_eq next_eq =>
    subst c_eq
    rw [next_eq] at h ⊢
    exact separable_afterQuote h next_eq
  | digit isDigit next_eq =>
    rw [next_eq]
    exact separable_afterDigit next_eq
  | lineBreak c_eq next_eq =>
    rw [next_eq]
    exact ⟨c, [], congrArg (fun c ↦ [c]) c_eq.symm, fun rest _ ↦ next_eq rest⟩
  | name next_eq =>
    rw [next_eq]
    refine ⟨c, rest.takeWhile Text.continuesName, rfl, fun rest' hrest ↦ ?_⟩
    obtain ⟨htake, hdrop⟩ := hrest.takeWhile_append (p := Text.continuesName) (by decide)
      (fun _ hd ↦ List.mem_takeWhile_imp hd : ∀ d ∈ rest.takeWhile Text.continuesName, _)
    rw [next_eq, htake, hdrop]
  | blank c_mem next_eq | stray unexpected next_eq =>
    rw [next_eq] at h
    cases h

/-- All pieces of a text that may become tokens are separable. -/
theorem separable_of_mem_split {source : List Char} {piece : Piece} (hmem : piece ∈ split source)
    (htoken : piece.isToken = true) : piece.Separable := by
  fun_induction split source with
  | case1 => cases hmem
  | case2 c rest ih =>
    rcases List.mem_cons.1 hmem with rfl | hmem
    · exact separable_next htoken
    · exact ih hmem

/-! ### Cutting pieces with blanks between them -/

/-- **Separable pieces with blanks between them are cut where they were put together.** -/
theorem split_intercalate {pieces : List Piece} (h : ∀ piece ∈ pieces, piece.Separable) :
    split ([' '].intercalate (pieces.map text)) = pieces.intersperse (blank ' ') := by
  induction pieces with
  | nil => simp [split]
  | cons piece rest ih =>
    obtain ⟨c, tail, htext, hnext⟩ := h piece List.mem_cons_self
    have hrest := ih fun piece hpiece ↦ h piece (List.mem_cons_of_mem _ hpiece)
    cases rest with
    | nil =>
      have hlast := hnext [] (by simp [SetOff])
      rw [List.append_nil] at hlast
      simp [htext, split, hlast]
    | cons piece' rest =>
      have hblank := hnext (' ' :: [' '].intercalate ((piece' :: rest).map text))
        fun c hc ↦ (Option.some.inj hc).symm
      rw [List.intersperse_cons_cons, List.map_cons, List.map_cons, List.intercalate_cons_cons,
        ← List.map_cons, List.append_assoc, List.singleton_append, htext, List.cons_append, split,
        hblank, split, show next ' ' _ = (blank ' ', _) from rfl, hrest]

/-- Separators are put between pieces, and no piece is lost. -/
theorem eq_or_mem_of_mem_intersperse {pieces : List Piece} {piece separator : Piece}
    (h : piece ∈ pieces.intersperse separator) : piece = separator ∨ piece ∈ pieces := by
  induction pieces with
  | nil => cases h
  | cons piece' rest ih =>
    cases rest with
    | nil => exact .inr h
    | cons piece'' rest =>
      rw [List.intersperse_cons_cons, List.mem_cons, List.mem_cons] at h
      rcases h with rfl | rfl | h
      · exact .inr List.mem_cons_self
      · exact .inl rfl
      · exact (ih h).imp_right (List.mem_cons_of_mem _)

end Piece

/-! ### Reading the same pieces -/

/-- Whether the error is about an escape in quoted text. -/
def LexicalCause.isEscape : LexicalCause → Bool
  | unrecognizedEscape _ => true
  | _ => false

namespace Position

variable {p q : Position} {piece : Piece}

/-- Pieces are read alike at both positions: as many parentheses are open, and the last token is of
the same kind. -/
structure SameReading (p q : Position) : Prop where
  depth : p.depth = q.depth
  last : p.last = q.last

/-- Positions that read the same make a token of a piece, or both make none. -/
theorem SameReading.reads_eq (h : p.SameReading q) (piece : Piece) :
    p.reads piece = q.reads piece := by
  have hends : p.endsStatement = q.endsStatement := by simp only [endsStatement, h.depth, h.last]
  cases piece with
  | lineBreak => simp only [reads, hends]
  | _ => rfl

/-- They read the same behind each piece as well. -/
theorem SameReading.after (h : p.SameReading q) (piece : Piece) :
    (p.after piece).SameReading (q.after piece) := by
  unfold Position.after
  rw [h.reads_eq piece]
  split
  · exact ⟨by simp only [depthAfter, h.depth], rfl⟩
  · exact ⟨h.depth, h.last⟩

/-- Reading the same is transitive. -/
theorem SameReading.trans {r : Position} (h : p.SameReading q) (h' : q.SameReading r) :
    p.SameReading r :=
  ⟨h.depth.trans h'.depth, h.last.trans h'.last⟩

/-- So the tokens of a piece have the same content. -/
theorem SameReading.token?_eq (h : p.SameReading q) (piece : Piece) :
    (p.token? piece).map Token.content = (q.token? piece).map Token.content := by
  simp only [token?, h.reads_eq piece, Option.map_map]
  rfl

/-- A piece that becomes no token leaves the reading as it was. -/
theorem sameReading_after (h : p.reads piece = none) : (p.after piece).SameReading p := by
  unfold Position.after
  rw [h]
  exact ⟨rfl, rfl⟩

/-- A piece is read if and only if there is a token of it. -/
theorem reads_eq_none_iff : p.reads piece = none ↔ p.token? piece = none := by
  simp [token?]

/-- Only tokens are read. -/
theorem isToken_of_reads (h : p.reads piece ≠ none) : piece.isToken = true := by
  cases piece with
  | mark kind | word text | number whole fraction | quoted body | lineBreak => rfl
  | blank c | comment text | stray c | openQuote body | openComment text => exact absurd rfl h

end Position

namespace Scan

open Position (SameReading)

variable {p q : Position}

/-- The pieces that become tokens. -/
def kept (p : Position) : List Piece → List Piece
  | [] => []
  | piece :: rest =>
    if p.reads piece = none then kept (p.after piece) rest else piece :: kept (p.after piece) rest

/-- The pieces that are kept depend on the position in what it reads only. -/
theorem kept_eq (h : p.SameReading q) (pieces : List Piece) : kept p pieces = kept q pieces := by
  induction pieces generalizing p q with
  | nil => rfl
  | cons piece rest ih => simp only [kept, h.reads_eq piece, ih (h.after piece)]

/-- What is kept is a token. -/
theorem isToken_of_mem_kept {pieces : List Piece} {piece : Piece} (h : piece ∈ kept p pieces) :
    piece ∈ pieces ∧ piece.isToken = true := by
  induction pieces generalizing p with
  | nil => cases h
  | cons piece' rest ih =>
    simp only [kept] at h
    split at h
    · exact ⟨List.mem_cons_of_mem _ (ih h).1, (ih h).2⟩
    · next hreads =>
      rcases List.mem_cons.1 h with rfl | h
      · exact ⟨List.mem_cons_self, Position.isToken_of_reads hreads⟩
      · exact ⟨List.mem_cons_of_mem _ (ih h).1, (ih h).2⟩

/-- The lexemes are the text of the pieces that became tokens. -/
theorem map_lexeme (p : Position) (pieces : List Piece) :
    (ofPieces p pieces).tokens.map Token.lexeme =
      (kept p pieces).map (String.ofList ∘ Piece.text) := by
  induction pieces generalizing p with
  | nil => rfl
  | cons piece rest ih =>
    simp only [ofPieces, kept, List.map_append, ih]
    cases hreads : p.reads piece with
    | none => simp [Position.reads_eq_none_iff.1 hreads]
    | some read => simp [Position.token?, hreads]

/-- **The pieces that become tokens become the same tokens without the others.** -/
theorem map_content_kept (h : p.SameReading q) (pieces : List Piece) :
    (ofPieces q (kept p pieces)).tokens.map Token.content =
      (ofPieces p pieces).tokens.map Token.content := by
  induction pieces generalizing p q with
  | nil => rfl
  | cons piece rest ih =>
    simp only [kept]
    split
    · next hreads =>
      rw [ih ((Position.sameReading_after hreads).trans h), ofPieces,
        Position.reads_eq_none_iff.1 hreads]
      rfl
    · next hreads =>
      simp only [ofPieces, List.map_append, ih (h.after piece)]
      rw [← Option.toList_map, ← Option.toList_map, h.token?_eq piece]

/-- Keeping what was kept keeps all of it. -/
theorem kept_kept (h : p.SameReading q) (pieces : List Piece) :
    kept q (kept p pieces) = kept p pieces := by
  induction pieces generalizing p q with
  | nil => rfl
  | cons piece rest ih =>
    simp only [kept]
    split
    · next hreads => exact ih ((Position.sameReading_after hreads).trans h)
    · next hreads =>
      rw [kept, if_neg (h.reads_eq piece ▸ hreads), ih (h.after piece)]

/-- Blanks between pieces change nothing. -/
theorem kept_intersperse (p : Position) (pieces : List Piece) :
    kept p (pieces.intersperse (.blank ' ')) = kept p pieces := by
  induction pieces generalizing p with
  | nil => rfl
  | cons piece rest ih =>
    cases rest with
    | nil => rfl
    | cons piece' rest =>
      have hblank (q : Position) : q.reads (.blank ' ') = none := rfl
      rw [List.intersperse_cons_cons, kept, kept, if_pos (hblank _),
        kept_eq (Position.sameReading_after (hblank _)), ih]
      rfl

end Scan

/-! ### Escapes -/

/-- The errors that the escapes in quoted text are reported by, in the order of the tokens. -/
def escapesOf (tokens : List Token) : List LexicalCause :=
  tokens.flatMap fun t ↦ t.unknownEscapes.map .unrecognizedEscape

/-- Errors of escapes are told by the content of the tokens. -/
theorem escapesOf_eq {tokens tokens' : List Token}
    (h : tokens.map Token.content = tokens'.map Token.content) :
    escapesOf tokens = escapesOf tokens' := by
  have hcontent : escapesOf = fun tokens : List Token ↦ (tokens.map Token.content).flatMap
      fun (kind, lexeme, _) ↦ (if kind = .string then
        (unescape lexeme.toList.tail.dropLast).2 else []).map .unrecognizedEscape := by
    funext tokens
    simp only [escapesOf, List.flatMap_map]
    rfl
  simp only [hcontent, h]

/-- **The errors about escapes are those of the tokens**, in their order. -/
theorem Account.filter_isEscape {eof : Token} {read rest : List Char} {tokens : List Token}
    {errors : List LexicalError} (h : Account eof read rest tokens errors) :
    (errors.map LexicalError.cause).filter LexicalCause.isEscape = escapesOf tokens := by
  induction h with
  | done => rfl
  | @token read text rest t tokens errors _ _ ih =>
    rw [List.map_append, List.filter_append, ih, List.map_map, List.filter_eq_self.2]
    · rfl
    · intro cause hcause
      obtain ⟨c, -, rfl⟩ := List.mem_map.1 hcause
      rfl
  | blank _ _ ih | comment _ _ ih | lineBreak _ ih | stray _ _ ih => exact ih
  | openQuote | openComment => rfl

namespace Scan

/-- Pieces that may become tokens, and blanks, are reported for escapes only. -/
theorem isEscape_of_mem_errors {pieces : List Piece} {p : Position} {error : LexicalError}
    (h : ∀ piece ∈ pieces, piece.isToken = true ∨ piece = .blank ' ')
    (herror : error ∈ (ofPieces p pieces).errors) : error.cause.isEscape = true := by
  induction pieces generalizing p with
  | nil => cases herror
  | cons piece rest ih =>
    rcases List.mem_append.1 herror with herror | herror
    · obtain ⟨cause, hcause, rfl⟩ := List.mem_map.1 herror
      cases piece with
      | quoted body =>
        obtain ⟨c, -, rfl⟩ := List.mem_map.1 hcause
        rfl
      | mark _ | word _ | number _ _ | lineBreak | blank _ | comment _ => cases hcause
      | stray _ | openQuote _ | openComment _ => simpa [Piece.isToken] using h _ List.mem_cons_self
    · exact ih (fun piece hpiece ↦ h piece (List.mem_cons_of_mem _ hpiece)) herror

/-- The lexemes of a source, with single blanks between them. -/
def respaced (s : Scan) : String :=
  " ".intercalate (s.tokens.map Token.lexeme)

/-- The respaced source is cut into the pieces that became tokens, with blanks between them. -/
theorem split_respaced (p : Position) (source : List Char) :
    Piece.split (ofPieces p (Piece.split source)).respaced.toList =
      (kept p (Piece.split source)).intersperse (.blank ' ') := by
  have htext : (ofPieces p (Piece.split source)).respaced.toList =
      [' '].intercalate ((kept p (Piece.split source)).map Piece.text) := by
    rw [respaced, map_lexeme, String.toList_intercalate, List.map_map]
    simp [Function.comp_def]
  rw [htext]
  refine Piece.split_intercalate fun piece hpiece ↦ ?_
  obtain ⟨hmem, htoken⟩ := isToken_of_mem_kept hpiece
  exact Piece.separable_of_mem_split hmem htoken

/-- **Scanning the lexemes of a source again gives the same tokens.** Whatever stood between the
lexemes, single blanks do as well: kinds, lexemes and values are the same, and what is reported are
the escapes in quoted text that were reported before, in the same order. -/
theorem respaced_eq (index index' : Nat) (source : String) :
    (ofSource index' (ofSource index source).respaced).tokens.map Token.content =
        (ofSource index source).tokens.map Token.content ∧
      (ofSource index' (ofSource index source).respaced).errors.map LexicalError.cause =
        escapesOf (ofSource index source).tokens ∧
      ((ofSource index source).errors.map LexicalError.cause).filter LexicalCause.isEscape =
        escapesOf (ofSource index source).tokens := by
  let first := ofSource index source
  let again := ofSource index' first.respaced
  have hsame : (Position.start index).SameReading (.start index') := ⟨rfl, rfl⟩
  have hagain : again = ofPieces (.start index')
      ((kept (.start index) (Piece.split source.toList)).intersperse (.blank ' ')) :=
    congrArg (ofPieces _) (split_respaced _ _)
  have hcontent : again.tokens.map Token.content = first.tokens.map Token.content := by
    have hkept := map_content_kept (p := .start index') (q := .start index') ⟨rfl, rfl⟩
      ((kept (.start index) (Piece.split source.toList)).intersperse (.blank ' '))
    rw [kept_intersperse, kept_kept hsame, map_content_kept hsame] at hkept
    rw [hagain, ← hkept]
    rfl
  have hstart (index : Nat) : (Position.start index).Behind [] := ⟨rfl, rfl⟩
  have haccount (index : Nat) (source : String) := (hstart index).account_ofPieces source.toList
  refine ⟨hcontent, ?_, (haccount index source).filter_isEscape⟩
  have hescapes : (again.errors.map _).filter _ = escapesOf again.tokens :=
    (haccount index' first.respaced).filter_isEscape
  rw [← escapesOf_eq hcontent, ← hescapes, List.filter_eq_self.2]
  intro cause hcause
  obtain ⟨error, herror, rfl⟩ := List.mem_map.1 hcause
  rw [hagain] at herror
  refine isEscape_of_mem_errors (fun piece hpiece ↦ ?_) herror
  rcases Piece.eq_or_mem_of_mem_intersperse hpiece with rfl | hpiece
  · exact .inr rfl
  · exact .inl (isToken_of_mem_kept hpiece).2

end Scan

end AliasScript
