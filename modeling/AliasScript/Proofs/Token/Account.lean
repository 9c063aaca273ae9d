import AliasScript.Proofs.Token.Scanned
import Mathlib.Data.List.TakeWhile

/-!
# The account of a source

Scanning accounts for every byte of a source. `Account` is that account: the text is gone through
once, from its start to its end, and each stretch of it is the lexeme of the next token, or a blank,
a line break or a comment, or a character that is reported, or all that is left of the source, which
is then reported by the last error. A token knows where its lexeme starts and on which line it ends,
counted in the text itself.

What comments are and which characters are unexpected is said here without the scanner, by
`IsComment` and `Unexpected`. `Scan.account_ofSource` says that a scan is such an account, and what
follows from it about bytes: lexemes are cut out of the source, one behind the other, and the
scanner never stands inside of a character.
-/

namespace AliasScript

/-! ### Bytes -/

namespace Position

theorem byteSize_eq (text : List Char) : byteSize text = (String.ofList text).utf8ByteSize := by
  have hfold : ∀ size, text.foldl (fun size c ↦ size + c.utf8Size) size =
      size + (String.ofList text).utf8ByteSize := by
    induction text with
    | nil => simp
    | cons c rest ih =>
      intro size
      rw [List.foldl_cons, ih, ← List.singleton_append, String.ofList_append,
        String.utf8ByteSize_append, ← String.singleton_eq_ofList, String.utf8ByteSize_singleton]
      omega
  simpa [byteSize] using hfold 0

@[simp] theorem byteSize_append (text more : List Char) :
    byteSize (text ++ more) = byteSize text + byteSize more := by
  simp [byteSize_eq, String.ofList_append, String.utf8ByteSize_append]

end Position

open Position (byteSize)

/-! ### Comments -/

/-- The text closes so many open block comments, and ends with the last of them. A slash before a
star opens a comment, a star before a slash closes one. -/
inductive Closes : Nat → List Char → Prop
  | done : Closes 0 []
  | opens {depth : Nat} {rest : List Char} :
      Closes (depth + 2) rest → Closes (depth + 1) ('/' :: '*' :: rest)
  | closes {depth : Nat} {rest : List Char} :
      Closes depth rest → Closes (depth + 1) ('*' :: '/' :: rest)
  | goesOn {depth : Nat} {c : Char} {rest : List Char} :
      (c = '/' → rest.head? ≠ some '*') → (c = '*' → rest.head? ≠ some '/') →
      Closes (depth + 1) rest → Closes (depth + 1) (c :: rest)

/-- A whole comment, before some text: two slashes and the rest of the line, or a block comment with
its end. -/
inductive IsComment : (comment rest : List Char) → Prop
  | line {body rest : List Char} :
      '\n' ∉ body → (∀ c ∈ rest.head?, c = '\n') → IsComment ('/' :: '/' :: body) rest
  | block {body rest : List Char} : Closes 1 body → IsComment ('/' :: '*' :: body) rest

namespace Closes

theorem head?_append {depth : Nat} {body : List Char} (h : Closes (depth + 1) body)
    (rest : List Char) : (body ++ rest).head? = body.head? := by
  cases h <;> rfl

end Closes

namespace Piece

/-- **A block comment ends where the comments that it opens are closed.** -/
theorem closeComment?_eq_some_iff {depth : Nat} {text body rest : List Char} :
    closeComment? depth text = some (body, rest) ↔ text = body ++ rest ∧ Closes depth body := by
  constructor
  · intro h
    refine ⟨(closeComment?_text h).symm, ?_⟩
    fun_induction closeComment? depth text generalizing body rest with
    | case1 => cases h; exact .done
    | case2 => cases h
    | case3 depth text ih =>
      obtain ⟨r, hr, hrest⟩ := Option.map_eq_some_iff.1 h
      cases hrest
      exact .opens (ih hr)
    | case4 depth text ih =>
      obtain ⟨r, hr, hrest⟩ := Option.map_eq_some_iff.1 h
      cases hrest
      exact .closes (ih hr)
    | case5 depth c text hopens hcloses ih =>
      obtain ⟨r, hr, hrest⟩ := Option.map_eq_some_iff.1 h
      cases hrest
      have hcloses' := ih hr
      -- What follows the character in the comment is what follows it in the text.
      have hhead : r.1.head? = text.head? := by
        rw [← closeComment?_text hr, hcloses'.head?_append]
      refine .goesOn (fun hc hnext ↦ ?_) (fun hc hnext ↦ ?_) hcloses'
      · rw [hhead] at hnext
        obtain ⟨after, hafter⟩ := List.head?_eq_some_iff.1 hnext
        exact hopens after hc hafter
      · rw [hhead] at hnext
        obtain ⟨after, hafter⟩ := List.head?_eq_some_iff.1 hnext
        exact hcloses after hc hafter
  · rintro ⟨rfl, h⟩
    induction h with
    | done => simp [closeComment?]
    | opens _ ih => simp [closeComment?, ih]
    | closes _ ih => simp [closeComment?, ih]
    | @goesOn depth c body hopens hcloses h ih =>
      have hnext := h.head?_append rest
      rw [List.cons_append, closeComment?.eq_5, ih]
      · rfl
      · rintro after rfl hafter
        exact hopens rfl (by rw [← hnext, hafter]; rfl)
      · rintro after rfl hafter
        exact hcloses rfl (by rw [← hnext, hafter]; rfl)

end Piece

/-! ### What a piece says of the text -/

/-- The marks that start a piece, and the characters that separate pieces. -/
def expectedMarks : List Char :=
  "()[]\x7b\x7d,.-+;*%:?&!=<>/\" \t\r\n".toList

/-- The character starts no piece. -/
def Unexpected (c : Char) : Prop :=
  c ∉ expectedMarks ∧ c.isDigit = false ∧ Text.startsName c = false

/-- Quoted text without its end: all that is left of the source, after a quote. -/
def IsOpenQuote (text : List Char) : Prop :=
  ∃ body, text = '"' :: body ∧ '"' ∉ body

/-- A block comment without its end: all that is left of the source. -/
def IsOpenComment (text : List Char) : Prop :=
  ∃ body, text = '/' :: '*' :: body ∧ ∀ inner, inner <+: body → ¬ Closes 1 inner

namespace Piece

/-- What a piece that becomes no token says of its own text and of what follows it. -/
def Fits (after : List Char) : Piece → Prop
  | mark _ | word _ | number _ _ | quoted _ | lineBreak => True
  | blank c => c ∈ [' ', '\t', '\r']
  | comment text => IsComment text after
  | stray c => Unexpected c
  | openQuote body => IsOpenQuote ('"' :: body) ∧ after = []
  | openComment text => IsOpenComment text ∧ after = []

theorem afterSlash_fits (rest : List Char) : (afterSlash rest).1.Fits (afterSlash rest).2 := by
  unfold afterSlash
  split
  · next rest =>
    refine .line (fun hmem ↦ ?_) fun c hc ↦ ?_
    · simpa using List.mem_takeWhile_imp hmem
    · have hdrop := List.head?_dropWhile_not (fun c : Char ↦ c != '\n') rest
      rw [Option.mem_def.1 hc] at hdrop
      simpa using hdrop
  · next rest =>
    split
    · next body after h => exact .block (closeComment?_eq_some_iff.1 h).2
    · next h =>
      refine ⟨⟨rest, rfl, fun inner hinner hcloses ↦ ?_⟩, rfl⟩
      obtain ⟨outer, rfl⟩ := hinner
      rw [closeComment?_eq_some_iff.2 ⟨rfl, hcloses⟩] at h
      cases h
  · trivial

theorem afterQuote_fits (rest : List Char) : (afterQuote rest).1.Fits (afterQuote rest).2 := by
  unfold afterQuote
  split
  · trivial
  · next h =>
    refine ⟨⟨rest, rfl, fun hmem ↦ ?_⟩, rfl⟩
    simpa using List.dropWhile_eq_nil_iff.1 h '"' hmem

theorem afterDigit_fits (c : Char) (rest : List Char) :
    (afterDigit c rest).1.Fits (afterDigit c rest).2 := by
  unfold afterDigit
  split
  · split <;> trivial
  · trivial

/-- Every character that may start a piece other than a word or a number is tried before. -/
theorem starts_of_mem_expectedMarks {c : Char} (h : c ∈ expectedMarks) :
    (single? c).isSome ∨ (lengthened? c).isSome ∨ c = '/' ∨ c = '"' ∨ isBlank c ∨ c = '\n' := by
  -- Said of the list, so that only its characters are tried.
  have hall : expectedMarks.all fun c ↦ (single? c).isSome || (lengthened? c).isSome ||
      c == '/' || c == '"' || isBlank c || c == '\n' := by
    decide
  simpa [or_assoc] using List.all_eq_true.1 hall c h

/-- What a character starts, whatever follows it. -/
inductive Starts (c : Char) : Prop
  | single (kind : Kind) (spelled : kind.spelling.toList = [c])
      (next_eq : ∀ rest, next c rest = (mark kind, rest))
  | lengthened (short long : Kind) (spelled : short.spelling.toList = [c])
      (spelledLong : long.spelling.toList = [c, '='])
      (next_eq : ∀ rest, rest.head? ≠ some '=' → next c rest = (mark short, rest))
      (next_equals : ∀ rest, next c ('=' :: rest) = (mark long, rest))
  | slash (c_eq : c = '/') (next_eq : ∀ rest, next c rest = afterSlash rest)
  | quote (c_eq : c = '"') (next_eq : ∀ rest, next c rest = afterQuote rest)
  | blank (c_mem : c ∈ [' ', '\t', '\r']) (next_eq : ∀ rest, next c rest = (blank c, rest))
  | lineBreak (c_eq : c = '\n') (next_eq : ∀ rest, next c rest = (lineBreak, rest))
  | digit (isDigit : c.isDigit = true) (next_eq : ∀ rest, next c rest = afterDigit c rest)
  | name (next_eq : ∀ rest, next c rest =
      (word (c :: rest.takeWhile Text.continuesName), rest.dropWhile Text.continuesName))
  | stray (unexpected : Unexpected c) (next_eq : ∀ rest, next c rest = (stray c, rest))

/-- **Every character starts something**, or is reported. -/
theorem starts (c : Char) : Starts c := by
  cases hsingle : single? c with
  | some kind => exact .single kind (single?_text hsingle) fun rest ↦ by simp [next, hsingle]
  | none =>
    cases hlengthened : lengthened? c with
    | some marks =>
      obtain ⟨short, long⟩ := marks
      obtain ⟨hshort, hlong⟩ := lengthened?_text hlengthened
      refine .lengthened short long hshort hlong (fun rest hrest ↦ ?_) fun rest ↦ ?_
      · simp only [next, hsingle, hlengthened]
        split
        · exact absurd rfl hrest
        · rfl
      · simp [next, hsingle, hlengthened]
    | none =>
      by_cases hslash : c = '/'
      · exact .slash hslash fun rest ↦ hslash ▸ rfl
      by_cases hquote : c = '"'
      · exact .quote hquote fun rest ↦ hquote ▸ rfl
      by_cases hblank : isBlank c
      · refine .blank (by simpa [isBlank, or_assoc] using hblank) fun rest ↦ ?_
        simp [next, hsingle, hlengthened, hslash, hquote, hblank]
      by_cases hbreak : c = '\n'
      · exact .lineBreak hbreak fun rest ↦ hbreak ▸ rfl
      by_cases hdigit : c.isDigit
      · refine .digit hdigit fun rest ↦ ?_
        simp [next, hsingle, hlengthened, hslash, hquote, hblank, hbreak, hdigit]
      by_cases hname : Text.startsName c
      · refine .name fun rest ↦ ?_
        simp [next, hsingle, hlengthened, hslash, hquote, hblank, hbreak, hdigit, hname]
      refine .stray ⟨fun hmem ↦ ?_, by simpa using hdigit, by simpa using hname⟩ fun rest ↦ ?_
      · have hstarts := starts_of_mem_expectedMarks hmem
        simp_all
      · simp [next, hsingle, hlengthened, hslash, hquote, hblank, hbreak, hdigit, hname]

/-- **The next piece is what it says.** -/
theorem next_fits (c : Char) (rest : List Char) : (next c rest).1.Fits (next c rest).2 := by
  cases starts c with
  | single kind spelled next_eq =>
    rw [next_eq]
    trivial
  | lengthened short long spelled spelledLong next_eq next_equals =>
    by_cases hequals : rest.head? = some '='
    · obtain ⟨after, rfl⟩ := List.head?_eq_some_iff.1 hequals
      rw [next_equals]
      trivial
    · rw [next_eq rest hequals]
      trivial
  | slash c_eq next_eq => exact next_eq rest ▸ afterSlash_fits rest
  | quote c_eq next_eq => exact next_eq rest ▸ afterQuote_fits rest
  | digit isDigit next_eq => exact next_eq rest ▸ afterDigit_fits c rest
  | blank c_mem next_eq => exact next_eq rest ▸ c_mem
  | lineBreak c_eq next_eq | name next_eq =>
    rw [next_eq]
    trivial
  | stray unexpected next_eq => exact next_eq rest ▸ unexpected

end Piece

/-! ### The account -/

/-- The lexeme of the token is this stretch of the source, behind what was read before. The token
ends on the line on which its lexeme ends; a line break belongs to the line that it closes. -/
structure Token.Occupies (t : Token) (read text : List Char) : Prop where
  kind : t.kind ≠ .eof
  lexeme : t.lexeme = String.ofList text
  ne_nil : text ≠ []
  column : t.column = byteSize read
  line : t.line = 1 + (if t.isLineEnd then read else read ++ text).count '\n'

/-- The characters that are escaped in quoted text and mean nothing. -/
def Token.unknownEscapes (t : Token) : List Char :=
  if t.kind = .string then (unescape t.lexeme.toList.tail.dropLast).2 else []

/-- **The account of what is left of a source**, behind what was read before: what its tokens, its
end and its errors have to do with its text. -/
inductive Account (eof : Token) :
    (read rest : List Char) → List Token → List LexicalError → Prop
  | done {read : List Char} : eof.kind = .eof → eof.lexeme = "" → eof.column = byteSize read →
      eof.line = 1 + read.count '\n' → Account eof read [] [] []
  /-- The errors of a token are about escapes in quoted text. -/
  | token {read text rest : List Char} {t : Token} {tokens : List Token}
      {errors : List LexicalError} : t.Occupies read text →
      Account eof (read ++ text) rest tokens errors →
      Account eof read (text ++ rest) (t :: tokens)
        (t.unknownEscapes.map (fun c ↦ ⟨t.line, .unrecognizedEscape c⟩) ++ errors)
  | blank {read rest : List Char} {c : Char} {tokens : List Token} {errors : List LexicalError} :
      c ∈ [' ', '\t', '\r'] → Account eof (read ++ [c]) rest tokens errors →
      Account eof read (c :: rest) tokens errors
  | lineBreak {read rest : List Char} {tokens : List Token} {errors : List LexicalError} :
      Account eof (read ++ ['\n']) rest tokens errors →
      Account eof read ('\n' :: rest) tokens errors
  | comment {read text rest : List Char} {tokens : List Token} {errors : List LexicalError} :
      IsComment text rest → Account eof (read ++ text) rest tokens errors →
      Account eof read (text ++ rest) tokens errors
  /-- A character is reported once. -/
  | stray {read rest : List Char} {c : Char} {tokens : List Token} {errors : List LexicalError} :
      Unexpected c → Account eof (read ++ [c]) rest tokens errors →
      Account eof read (c :: rest) tokens
        (⟨1 + (read ++ [c]).count '\n', .unexpectedCharacter c⟩ :: errors)
  /-- What is left is reported by one error, the last. -/
  | openQuote {read text : List Char} : IsOpenQuote text → Account eof (read ++ text) [] [] [] →
      Account eof read text [] [⟨1 + (read ++ text).count '\n', .unterminatedString⟩]
  | openComment {read text : List Char} : IsOpenComment text →
      Account eof (read ++ text) [] [] [] →
      Account eof read text [] [⟨1 + (read ++ text).count '\n', .unterminatedComment⟩]

theorem Kind.ofWord_mem (word : String) : ofWord word = .identifier ∨ ofWord word ∈ keywords := by
  unfold ofWord
  cases hfind : keywords.find? fun kind ↦ kind.spelling == word with
  | none => exact .inl rfl
  | some kind => exact .inr (List.mem_of_find?_eq_some hfind)

namespace Position

variable {p : Position} {read : List Char} {piece : Piece} {t : Token}

/-- The walk stands behind what was read. -/
structure Behind (p : Position) (read : List Char) : Prop where
  offset : p.offset = byteSize read
  line : p.line = 1 + read.count '\n'

theorem Behind.after (h : p.Behind read) (piece : Piece) :
    (p.after piece).Behind (read ++ piece.text) := by
  have hoffset : (p.after piece).offset = p.offset + byteSize piece.text := by
    unfold Position.after
    split <;> rfl
  have hline : (p.after piece).line = p.lineAfter piece := by
    unfold Position.after
    split <;> rfl
  exact ⟨by simp [hoffset, h.offset], by simp [hline, lineAfter, h.line, Nat.add_assoc]⟩

/-- The kind of a word is not that of the end, of a separator or of quoted text. -/
theorem kind_of_word {text : List Char} {kind : Kind} {value : Literal}
    (h : p.reads (.word text) = some (kind, value)) :
    kind ≠ .eof ∧ kind ≠ .semicolon ∧ kind ≠ .string := by
  have hkind : kind = Kind.ofWord (String.ofList text) := by
    simp only [reads] at h
    split at h <;> cases h <;> simp_all
  have hmem : Kind.ofWord (String.ofList text) ∈ .identifier :: Kind.keywords :=
    List.mem_cons.2 (Kind.ofWord_mem _)
  rw [← hkind] at hmem
  refine ⟨?_, ?_, ?_⟩ <;> rintro rfl <;> exact absurd hmem (by decide)

/-- **The token that a piece becomes occupies the piece.** -/
theorem Behind.occupies (h : p.Behind read) (htext : piece.text ≠ [])
    (ht : p.token? piece = some t) : t.Occupies read piece.text := by
  obtain ⟨⟨kind, value⟩, hreads, rfl⟩ := Option.map_eq_some_iff.1 ht
  have hline : 1 + (read ++ piece.text).count '\n' = p.lineAfter piece := by
    simp [lineAfter, h.line, Nat.add_assoc]
  cases piece with
  | mark kind' =>
    cases hreads
    have hbreak : (kind == .semicolon && String.ofList kind.spelling.toList == "\n") = false := by
      cases kind <;> rfl
    refine ⟨?_, rfl, htext, h.offset, ?_⟩
    · rintro rfl
      exact htext rfl
    · simp only [Token.isLineEnd, Piece.text, hbreak]
      exact hline.symm
  | word text =>
    obtain ⟨heof, hsemicolon, -⟩ := kind_of_word hreads
    refine ⟨heof, rfl, htext, h.offset, ?_⟩
    simp only [Token.isLineEnd, beq_eq_false_iff_ne.2 hsemicolon]
    exact hline.symm
  | number whole fraction | quoted body =>
    cases hreads
    exact ⟨by simp, rfl, htext, h.offset, hline.symm⟩
  | lineBreak =>
    simp only [reads, Option.ite_none_right_eq_some] at hreads
    cases hreads.2
    exact ⟨by simp, rfl, htext, h.offset, h.line⟩
  | blank c | comment text | stray c | openQuote body | openComment text => cases hreads

/-- What is wrong with a token are the escapes in it that mean nothing. -/
theorem complaints_of_token? (ht : p.token? piece = some t) :
    p.complaints piece = t.unknownEscapes.map fun c ↦ ⟨t.line, .unrecognizedEscape c⟩ := by
  obtain ⟨⟨kind, value⟩, hreads, rfl⟩ := Option.map_eq_some_iff.1 ht
  cases piece with
  | mark kind' =>
    cases hreads
    cases kind <;> rfl
  | word text =>
    have hkind : kind ≠ .string := by
      rintro rfl
      exact (kind_of_word hreads).2.2 rfl
    simp [complaints, Token.unknownEscapes, hkind]
  | number whole fraction =>
    cases hreads
    rfl
  | quoted body =>
    cases hreads
    simp [complaints, Token.unknownEscapes, Piece.text, tokenLine]
  | lineBreak =>
    simp only [reads, Option.ite_none_right_eq_some] at hreads
    cases hreads.2
    rfl
  | blank c | comment text | stray c | openQuote body | openComment text => cases hreads

variable {eof : Token} {after : List Char} {tokens : List Token} {errors : List LexicalError}

/-- One piece of the account. What runs to the end of the source has nothing behind it. -/
theorem Behind.account (h : p.Behind read) (htext : piece.text ≠ []) (hfits : piece.Fits after)
    (hrest : Account eof (read ++ piece.text) after tokens errors)
    (hend : after = [] → tokens = [] ∧ errors = []) :
    Account eof read (piece.text ++ after) ((p.token? piece).toList ++ tokens)
      (p.complaints piece ++ errors) := by
  cases ht : p.token? piece with
  | some t =>
    rw [complaints_of_token? ht]
    exact .token (h.occupies htext ht) hrest
  | none =>
    have hline : p.lineAfter piece = 1 + (read ++ piece.text).count '\n' := by
      simp [lineAfter, h.line, Nat.add_assoc]
    cases piece with
    | mark kind | number whole fraction | quoted body => cases ht
    | word text =>
      simp only [token?, reads, Option.map_eq_none_iff] at ht
      split at ht <;> cases ht
    | blank c => exact .blank hfits hrest
    | lineBreak => exact .lineBreak hrest
    | comment text => exact .comment hfits hrest
    | stray c =>
      simp only [complaints, hline]
      exact .stray hfits hrest
    | openQuote body =>
      obtain ⟨hopen, rfl⟩ := hfits
      obtain ⟨rfl, rfl⟩ := hend rfl
      simp only [complaints, hline, List.append_nil]
      exact .openQuote hopen hrest
    | openComment text =>
      obtain ⟨hopen, rfl⟩ := hfits
      obtain ⟨rfl, rfl⟩ := hend rfl
      simp only [complaints, hline, List.append_nil]
      exact .openComment hopen hrest

end Position

/-- **Scanning gives an account of the text**, from any place in a source on. -/
theorem Position.Behind.account_ofPieces {p : Position} {read : List Char} (h : p.Behind read)
    (rest : List Char) :
    Account (Scan.ofPieces p (Piece.split rest)).eof read rest
      (Scan.ofPieces p (Piece.split rest)).tokens (Scan.ofPieces p (Piece.split rest)).errors := by
  fun_induction Piece.split rest generalizing p read with
  | case1 => exact .done rfl rfl h.offset h.line
  | case2 c rest ih =>
    have haccount := h.account (Piece.next_text_ne_nil c rest) (Piece.next_fits c rest)
      (ih (h.after _)) (fun hend ↦ by simp [hend, Piece.split, Scan.ofPieces])
    rw [Piece.next_text] at haccount
    exact haccount

/-! ### What follows about bytes -/

namespace Account

variable {eof : Token} {read rest : List Char} {tokens : List Token} {errors : List LexicalError}

/-- The end stands behind the whole source. -/
theorem eof_eq (h : Account eof read rest tokens errors) :
    eof.kind = .eof ∧ eof.lexeme = "" ∧ eof.column = byteSize (read ++ rest) ∧
      eof.line = 1 + (read ++ rest).count '\n' := by
  induction h with
  | done hkind hlexeme hcolumn hline => simp [hkind, hlexeme, hcolumn, hline]
  | token _ _ ih | comment _ _ ih => simpa using ih
  | blank _ _ ih | stray _ _ ih | lineBreak _ ih => simpa using ih
  | openQuote _ _ ih | openComment _ _ ih => simpa using ih

/-- Every token occupies a stretch of the source. -/
theorem exists_occupies (h : Account eof read rest tokens errors) {t : Token} (ht : t ∈ tokens) :
    ∃ before text after, read ++ rest = before ++ (text ++ after) ∧ t.Occupies before text := by
  induction h with
  | done => cases ht
  | @token read text rest t' tokens errors hoccupies _ ih =>
    rcases List.mem_cons.1 ht with rfl | ht
    · exact ⟨read, text, rest, rfl, hoccupies⟩
    · simpa using ih ht
  | comment _ _ ih => simpa using ih ht
  | blank _ _ ih | stray _ _ ih | lineBreak _ ih => simpa using ih ht
  | openQuote | openComment => cases ht

/-- No token stands before what was read already. -/
theorem le_column (h : Account eof read rest tokens errors) {t : Token} (ht : t ∈ tokens) :
    byteSize read ≤ t.column := by
  induction h with
  | done => cases ht
  | token hoccupies _ ih =>
    rcases List.mem_cons.1 ht with rfl | ht
    · exact Nat.le_of_eq hoccupies.column.symm
    · exact Nat.le_trans (by simp) (ih ht)
  | comment _ _ ih => exact Nat.le_trans (by simp) (ih ht)
  | blank _ _ ih | stray _ _ ih | lineBreak _ ih => exact Nat.le_trans (by simp) (ih ht)
  | openQuote | openComment => cases ht

/-- **Lexemes lie one behind the other.** -/
theorem pairwise_column (h : Account eof read rest tokens errors) :
    tokens.Pairwise fun t t' ↦ t.column + t.lexeme.utf8ByteSize ≤ t'.column := by
  induction h with
  | done => exact .nil
  | token hoccupies hrest ih =>
    refine List.pairwise_cons.2 ⟨fun t' ht' ↦ ?_, ih⟩
    have hle := hrest.le_column ht'
    rw [hoccupies.column, hoccupies.lexeme, ← Position.byteSize_eq]
    rwa [Position.byteSize_append] at hle
  | comment _ _ ih => exact ih
  | blank _ _ ih | stray _ _ ih | lineBreak _ ih => exact ih
  | openQuote | openComment => exact .nil

end Account

/-- The token is a stretch of the source: its lexeme is what the source holds from its column on,
and its line is counted up to the end of the lexeme, or up to its start for a line break. -/
def Token.CutFrom (t : Token) (source : String) : Prop :=
  ∃ before text after, source.toList = before ++ (text ++ after) ∧ t.Occupies before text ∧
    source.toUTF8.extract t.column (t.column + t.lexeme.utf8ByteSize) = t.lexeme.toUTF8

theorem Token.Occupies.cutFrom {t : Token} {source : String} {before text after : List Char}
    (h : t.Occupies before text) (hsource : source.toList = before ++ (text ++ after)) :
    t.CutFrom source := by
  refine ⟨before, text, after, hsource, h, ?_⟩
  have hjoined : source = (String.ofList before ++ t.lexeme) ++ String.ofList after := by
    rw [h.lexeme, ← String.ofList_append, ← String.ofList_append, List.append_assoc, ← hsource,
      String.ofList_toList]
  have hsize : (String.ofList before).toByteArray.size = t.column := by
    rw [String.size_toByteArray, h.column, Position.byteSize_eq]
  have hle : t.lexeme.toByteArray.size = t.lexeme.utf8ByteSize := String.size_toByteArray
  rw [String.toUTF8, hjoined, String.toByteArray_append, String.toByteArray_append,
    ByteArray.append_assoc, ← hsize]
  rw [← Nat.add_zero (String.ofList before).toByteArray.size, Nat.add_assoc,
    ByteArray.extract_append_size_add, Nat.zero_add]
  exact ByteArray.extract_append_eq_left hle.symm

/-- The places at which the scanner stands from a position on: before each character of the pieces,
and behind the last of them. -/
def Scan.offsets (p : Position) : List Piece → List Nat
  | [] => [p.offset]
  | piece :: rest =>
    (List.range piece.text.length).map (fun n ↦ p.offset + byteSize (piece.text.take n)) ++
      offsets (p.after piece) rest

/-- **The scanner stands between two characters of the source at all times.** -/
theorem Position.Behind.isValid_offset {p : Position} {read : List Char} (h : p.Behind read)
    (pieces : List Piece) {source : String}
    (hsource : source.toList = read ++ pieces.flatMap Piece.text) {offset : Nat}
    (hoffset : offset ∈ Scan.offsets p pieces) :
    (String.Pos.Raw.mk offset).IsValid source := by
  have hvalid : ∀ before after, source.toList = before ++ after →
      (String.Pos.Raw.mk (byteSize before)).IsValid source := by
    intro before after hsplit
    refine String.Pos.Raw.isValid_iff_exists_append.2
      ⟨String.ofList before, String.ofList after, ?_, ?_⟩
    · rw [← String.ofList_append, ← hsplit, String.ofList_toList]
    · rw [byteSize_eq]
      rfl
  induction pieces generalizing p read with
  | nil =>
    cases List.mem_singleton.1 hoffset
    exact h.offset ▸ hvalid read [] hsource
  | cons piece rest ih =>
    rcases List.mem_append.1 hoffset with hinside | hbehind
    · obtain ⟨n, -, rfl⟩ := List.mem_map.1 hinside
      rw [h.offset, ← byteSize_append]
      refine hvalid _ (piece.text.drop n ++ rest.flatMap Piece.text) ?_
      rw [hsource, List.append_assoc, ← List.append_assoc (piece.text.take n),
        List.take_append_drop, List.flatMap_cons]
    · exact ih (h.after piece) (by rw [hsource, List.append_assoc, List.flatMap_cons]) hbehind

/-- **A scan accounts for every byte of its source.** The tokens are cut from the source one behind
the other, all other text is skipped or reported once, the end stands behind it, and the scanner
stands between two characters at all times. -/
theorem Scan.account_ofSource (index : Nat) (source : String) :
    Account (ofSource index source).eof [] source.toList (ofSource index source).tokens
        (ofSource index source).errors ∧
      (∀ t ∈ (ofSource index source).tokens, t.CutFrom source) ∧
      (ofSource index source).tokens.Pairwise
        (fun t t' ↦ t.column + t.lexeme.utf8ByteSize ≤ t'.column) ∧
      (ofSource index source).eof.kind = .eof ∧
      (ofSource index source).eof.column = source.utf8ByteSize ∧
      (ofSource index source).eof.line = 1 + source.toList.count '\n' ∧
      ∀ offset ∈ offsets (.start index) (Piece.split source.toList),
        (String.Pos.Raw.mk offset).IsValid source := by
  have hstart : (Position.start index).Behind [] := ⟨rfl, rfl⟩
  have haccount := hstart.account_ofPieces source.toList
  obtain ⟨hkind, -, hcolumn, hline⟩ := haccount.eof_eq
  refine ⟨haccount, fun t ht ↦ ?_, haccount.pairwise_column, hkind, ?_, hline, ?_⟩
  · obtain ⟨before, text, after, hsource, hoccupies⟩ := haccount.exists_occupies ht
    exact hoccupies.cutFrom hsource
  · have hsize : byteSize source.toList = source.utf8ByteSize := by
      rw [Position.byteSize_eq, String.ofList_toList]
    exact hcolumn.trans hsize
  · exact fun offset ↦
      hstart.isValid_offset _ (by rw [Piece.text_split, List.nil_append])

end AliasScript
