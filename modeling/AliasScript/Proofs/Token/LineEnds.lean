import AliasScript.Proofs.Token.Account
import Mathlib.Data.List.Chain

/-!
# Where a line ends a statement

A line break becomes a token, a semicolon spelled as a line break, exactly where the rule says: the
line break stands outside of quoted text and comments, and the tokens before it can be ended there
(`Terminable`). What surrounds a character is said here without the scanner, by reading the source
one character after the other (`Enclosure.behind`), and so are the open parentheses, by counting
them in the tokens (`openParens`).

There are two sides to this. Cutting: a piece other than a line break leads from code back to code,
and the line breaks in the middle of it are surrounded by quoted text or by a comment
(`Piece.next_joins`). The walk: it remembers of the tokens that it has made what the rule asks for
(`Position.Remembers`), whatever else it has skipped or reported in between.
-/

namespace AliasScript

open Position (byteSize)

/-! ### What surrounds a character -/

/-- What a character of a source stands in. -/
inductive Enclosure where
  | code
  | quoted
  | lineComment
  /-- A block comment that stands in so many others. -/
  | blockComment (outer : Nat)
deriving DecidableEq, Repr

namespace Enclosure

/-- What the character behind a text stands in. Nothing opens in quoted text, and in a comment only
another block comment does. -/
def behind : Enclosure → List Char → Enclosure
  | s, [] => s
  | code, '"' :: rest => behind quoted rest
  | code, '/' :: '/' :: rest => behind lineComment rest
  | code, '/' :: '*' :: rest => behind (blockComment 0) rest
  | code, _ :: rest => behind code rest
  | quoted, '"' :: rest => behind code rest
  | quoted, _ :: rest => behind quoted rest
  | lineComment, '\n' :: rest => behind code rest
  | lineComment, _ :: rest => behind lineComment rest
  | blockComment outer, '/' :: '*' :: rest => behind (blockComment (outer + 1)) rest
  | blockComment 0, '*' :: '/' :: rest => behind code rest
  | blockComment (outer + 1), '*' :: '/' :: rest => behind (blockComment outer) rest
  | blockComment outer, _ :: rest => behind (blockComment outer) rest

/-- Whether a line break in these surroundings stands outside of quoted text and comments. A line
comment ends before the line break. -/
def freesLineBreak : Enclosure → Bool
  | code | lineComment => true
  | quoted | blockComment _ => false

variable {s : Enclosure} {c : Char} {text rest : List Char} {outer : Nat}

/-- A quote in code opens a string. -/
theorem behind_code_quote : behind code ('"' :: rest) = behind quoted rest := rfl

/-- Two slashes in code open a comment up to the end of the line. -/
theorem behind_code_slashes : behind code ('/' :: '/' :: rest) = behind lineComment rest := rfl

/-- A slash with a star opens a block comment. -/
theorem behind_code_slashStar :
    behind code ('/' :: '*' :: rest) = behind (blockComment 0) rest := rfl

/-- A quote closes the string. -/
theorem behind_quoted_quote : behind quoted ('"' :: rest) = behind code rest := rfl

/-- A line break ends the comment of its line. -/
theorem behind_lineComment_lineBreak : behind lineComment ('\n' :: rest) = behind code rest := rfl

/-- Block comments nest. -/
theorem behind_blockComment_slashStar :
    behind (blockComment outer) ('/' :: '*' :: rest) = behind (blockComment (outer + 1)) rest := rfl

/-- The outermost block comment ends in code. -/
theorem behind_blockComment_starSlash :
    behind (blockComment 0) ('*' :: '/' :: rest) = behind code rest := rfl

/-- A nested one ends in the block comment around it. -/
theorem behind_blockComment_succ_starSlash :
    behind (blockComment (outer + 1)) ('*' :: '/' :: rest) = behind (blockComment outer) rest := rfl

/-- The character, before some text, opens nothing and closes nothing. -/
def Keeps : Enclosure → Char → List Char → Prop
  | code, c, rest => c ≠ '"' ∧ (c = '/' → rest.head? ≠ some '/' ∧ rest.head? ≠ some '*')
  | quoted, c, _ => c ≠ '"'
  | lineComment, c, _ => c ≠ '\n'
  | blockComment _, c, rest =>
    (c = '/' → rest.head? ≠ some '*') ∧ (c = '*' → rest.head? ≠ some '/')

/-- **Behind a character that opens and closes nothing, all is as before it.** -/
theorem behind_cons (h : s.Keeps c rest) : behind s (c :: rest) = behind s rest := by
  rw [behind.eq_def]
  split <;> simp_all [Keeps]

/-- No other character of code opens anything. -/
theorem behind_code_cons (hquote : c ≠ '"')
    (hslash : c = '/' → rest.head? ≠ some '/' ∧ rest.head? ≠ some '*') :
    behind code (c :: rest) = behind code rest :=
  behind_cons (s := code) ⟨hquote, hslash⟩

/-- Text of code without quotes and slashes stays in code. -/
theorem behind_code_append (h : ∀ c ∈ text, c ≠ '"' ∧ c ≠ '/') :
    behind code (text ++ rest) = behind code rest := by
  induction text with
  | nil => rfl
  | cons c text ih =>
    obtain ⟨⟨hquote, hslash⟩, htext⟩ := List.forall_mem_cons.1 h
    rw [List.cons_append, behind_code_cons hquote fun hc ↦ absurd hc hslash, ih htext]

/-- Text without a quote stays in the string. -/
theorem behind_quoted_append (h : '"' ∉ text) :
    behind quoted (text ++ rest) = behind quoted rest := by
  induction text with
  | nil => rfl
  | cons c text ih =>
    rw [List.mem_cons, not_or] at h
    have hc : quoted.Keeps c (text ++ rest) := Ne.symm h.1
    rw [List.cons_append, behind_cons hc, ih h.2]

/-- Text without a line break stays in the comment. -/
theorem behind_lineComment_append (h : '\n' ∉ text) :
    behind lineComment (text ++ rest) = behind lineComment rest := by
  induction text with
  | nil => rfl
  | cons c text ih =>
    rw [List.mem_cons, not_or] at h
    have hc : lineComment.Keeps c (text ++ rest) := Ne.symm h.1
    rw [List.cons_append, behind_cons hc, ih h.2]

/-- Behind a block comment there is code again. -/
theorem behind_blockComment_append (h : Closes (outer + 1) text) :
    behind (blockComment outer) (text ++ rest) = behind code rest := by
  generalize hdepth : outer + 1 = depth at h
  induction h generalizing outer with
  | done => cases hdepth
  | opens _ ih =>
    cases hdepth
    exact behind_blockComment_slashStar.trans (ih rfl)
  | @closes depth text h ih =>
    cases hdepth
    cases depth with
    | zero =>
      cases h
      exact behind_blockComment_starSlash
    | succ outer => exact behind_blockComment_succ_starSlash.trans (ih rfl)
  | goesOn hopens hcloses h ih =>
    cases hdepth
    rw [← h.head?_append rest] at hopens hcloses
    exact (behind_cons (s := blockComment _) ⟨hopens, hcloses⟩).trans (ih rfl)

/-- Where the block comments that are open are not all closed, a comment goes on. -/
theorem behind_blockComment_of_open (h : Piece.closeComment? (outer + 1) text = none) :
    ∃ outer', behind (blockComment outer) text = blockComment outer' := by
  generalize hdepth : outer + 1 = depth at h
  fun_induction Piece.closeComment? depth text generalizing outer with
  | case1 => cases hdepth
  | case2 =>
    exact ⟨outer, rfl⟩
  | case3 depth text ih =>
    cases hdepth
    rw [behind_blockComment_slashStar]
    exact ih rfl (Option.map_eq_none_iff.1 h)
  | case4 depth text ih =>
    cases hdepth
    have hrest := Option.map_eq_none_iff.1 h
    cases depth with
    | zero => simp [Piece.closeComment?] at hrest
    | succ outer =>
      rw [behind_blockComment_succ_starSlash]
      exact ih rfl hrest
  | case5 depth c text hopens hcloses ih =>
    cases hdepth
    rw [behind_cons (s := blockComment depth)]
    · exact ih rfl (Option.map_eq_none_iff.1 h)
    constructor
    · intro hc hnext
      obtain ⟨after, hafter⟩ := List.head?_eq_some_iff.1 hnext
      exact hopens after hc hafter
    · intro hc hnext
      obtain ⟨after, hafter⟩ := List.head?_eq_some_iff.1 hnext
      exact hcloses after hc hafter

end Enclosure

open Enclosure (code behind)

/-! ### Pieces and what surrounds them -/

/-- No text before the end of a block comment ends it. -/
theorem Closes.closeComment?_eq_none {depth : Nat} {text before after : List Char} {c : Char}
    (h : Closes depth text) (htext : text = before ++ c :: after) :
    Piece.closeComment? depth before = none := by
  cases hclose : Piece.closeComment? depth before with
  | none => rfl
  | some closed =>
    obtain ⟨inner, rest⟩ := closed
    obtain ⟨rfl, hinner⟩ := Piece.closeComment?_eq_some_iff.1 hclose
    have hwhole := Piece.closeComment?_eq_some_iff.2 ⟨(List.append_nil text).symm, h⟩
    rw [htext, List.append_assoc, Piece.closeComment?_eq_some_iff.2 ⟨rfl, hinner⟩] at hwhole
    simp at hwhole

/-- The character opens nothing in code and ends no line. -/
def Ordinary (c : Char) : Prop :=
  c ∉ ['"', '/', '\n']

instance : DecidablePred Ordinary :=
  fun c ↦ inferInstanceAs (Decidable (c ∉ ['"', '/', '\n']))

/-- The characters of a class are ordinary if quotes, slashes and line breaks are not in it. -/
theorem ordinary_of_class {p : Char → Bool} (hp : p '"' = false ∧ p '/' = false ∧ p '\n' = false)
    {c : Char} (hc : p c = true) : Ordinary c := by
  have hclass : ∀ d ∈ ['"', '/', '\n'], p d = false := by simpa using hp
  exact fun hmem ↦ Bool.noConfusion (hc.symm.trans (hclass c hmem))

theorem Ordinary.ne {c : Char} (h : Ordinary c) : c ≠ '"' ∧ c ≠ '/' ∧ c ≠ '\n' := by
  simpa [Ordinary] using h

namespace Piece

/-- A piece, before some text, leads from code to code, and a line break in it is a piece of its own
or is surrounded by quoted text or a comment. -/
structure Joins (piece : Piece) (rest : List Char) : Prop where
  through : ∀ before after, rest = before ++ '\n' :: after →
    (behind code (piece.text ++ before)).freesLineBreak = (behind code before).freesLineBreak
  inside : ∀ before after, piece.text = before ++ '\n' :: after →
    piece = lineBreak ∨ (behind code before).freesLineBreak = false

section Joins

variable {piece : Piece} {rest : List Char}

/-- Pieces of ordinary characters join code with code. -/
theorem joins_of_ordinary (h : ∀ c ∈ piece.text, Ordinary c) : piece.Joins rest := by
  refine ⟨fun before _ _ ↦ ?_, fun before after htext ↦ ?_⟩
  · rw [Enclosure.behind_code_append fun c hc ↦ ⟨(h c hc).ne.1, (h c hc).ne.2.1⟩]
  · exact absurd (h '\n' (by simp [htext])) (by decide)

/-- A line comment ends at the first line break behind it. -/
theorem joins_lineComment {body : List Char} (hbody : '\n' ∉ body)
    (hrest : ∀ c ∈ rest.head?, c = '\n') : (comment ('/' :: '/' :: body)).Joins rest := by
  refine ⟨fun before after hsplit ↦ ?_, fun before after hsplit ↦ ?_⟩
  · rw [text, List.cons_append, List.cons_append, Enclosure.behind_code_slashes,
      Enclosure.behind_lineComment_append hbody]
    cases before with
    | nil => rfl
    | cons c before =>
      cases hrest c (by simp [hsplit])
      rw [Enclosure.behind_lineComment_lineBreak,
        Enclosure.behind_code_cons (by decide) (by simp)]
  · have hmem : '\n' ∈ '/' :: '/' :: body := by
      rw [show '/' :: '/' :: body = before ++ '\n' :: after from hsplit]
      simp
    simp [hbody] at hmem

/-- In a block comment, a comment goes on up to its end. -/
theorem inside_blockComment {body before after : List Char}
    (hopen : ∀ inner rest, body = inner ++ '\n' :: rest → closeComment? 1 inner = none)
    (hsplit : '/' :: '*' :: body = before ++ '\n' :: after) :
    (behind code before).freesLineBreak = false := by
  obtain - | ⟨c, - | ⟨d, before⟩⟩ := before
  · simp at hsplit
  · simp at hsplit
  · simp only [List.cons_append, List.cons.injEq] at hsplit
    obtain ⟨rfl, rfl, hbody⟩ := hsplit
    obtain ⟨outer, houter⟩ :=
      Enclosure.behind_blockComment_of_open (hopen before after hbody)
    rw [Enclosure.behind_code_slashStar, houter]
    rfl

/-- A block comment that is closed joins code with code. -/
theorem joins_blockComment {body : List Char} (hbody : Closes 1 body) :
    (comment ('/' :: '*' :: body)).Joins rest := by
  refine ⟨fun before after _ ↦ ?_, fun before after hsplit ↦ .inr ?_⟩
  · rw [text, List.cons_append, List.cons_append, Enclosure.behind_code_slashStar,
      Enclosure.behind_blockComment_append hbody]
  · exact inside_blockComment (fun _ _ h ↦ hbody.closeComment?_eq_none h) hsplit

/-- One that is not closed has the whole rest of the source in it. -/
theorem joins_openComment {text : List Char} (h : IsOpenComment text) :
    (openComment text).Joins [] := by
  obtain ⟨body, rfl, hopen⟩ := h
  refine ⟨fun before after hsplit ↦ ?_, fun before after hsplit ↦ .inr ?_⟩
  · simp at hsplit
  · refine inside_blockComment (fun inner rest hbody ↦ ?_) hsplit
    cases hclose : closeComment? 1 inner with
    | none => rfl
    | some closed =>
      obtain ⟨rfl, hcloses⟩ := closeComment?_eq_some_iff.1 hclose
      exact absurd hcloses (hopen _ ⟨_, by rw [hbody, List.append_assoc]⟩)

/-- In quoted text, quoted text goes on up to its end. -/
theorem inside_quoted {body before after : List Char}
    (hopen : ∀ inner rest, body = inner ++ '\n' :: rest → '"' ∉ inner)
    (hsplit : '"' :: body = before ++ '\n' :: after) :
    (behind code before).freesLineBreak = false := by
  cases before with
  | nil => simp at hsplit
  | cons c before =>
    simp only [List.cons_append, List.cons.injEq] at hsplit
    obtain ⟨rfl, hbody⟩ := hsplit
    rw [Enclosure.behind_code_quote, ← List.append_nil before,
      Enclosure.behind_quoted_append (hopen before after hbody)]
    rfl

/-- A string that is closed joins code with code. -/
theorem joins_quoted {body : List Char} (hbody : '"' ∉ body) : (quoted body).Joins rest := by
  refine ⟨fun before after _ ↦ ?_, fun before after hsplit ↦ .inr ?_⟩
  · rw [text, List.cons_append, List.cons_append, List.append_assoc,
      Enclosure.behind_code_quote, Enclosure.behind_quoted_append hbody,
      List.singleton_append, Enclosure.behind_quoted_quote]
  · refine inside_quoted (fun inner rest hinner hmem ↦ ?_) hsplit
    -- The last character is a quote, so the line break stands before it.
    rcases List.append_eq_append_iff.1 hinner with ⟨more, -, hmore⟩ | ⟨more, rfl, -⟩
    · obtain - | ⟨c, more⟩ := more <;> simp at hmore
    · exact hbody (List.mem_append_left _ hmem)

/-- One that is not closed has the whole rest of the source in it. -/
theorem joins_openQuote {body : List Char} (hbody : '"' ∉ body) : (openQuote body).Joins [] := by
  refine ⟨fun before after hsplit ↦ ?_, fun before after hsplit ↦ .inr ?_⟩
  · simp at hsplit
  · refine inside_quoted (fun inner rest hinner hmem ↦ ?_) hsplit
    rw [hinner] at hbody
    exact hbody (List.mem_append_left _ hmem)

end Joins

/-- A slash is an operator, or opens a comment of either sort. -/
theorem joins_afterSlash (rest : List Char) : (afterSlash rest).1.Joins (afterSlash rest).2 := by
  have hfits := afterSlash_fits rest
  unfold afterSlash at hfits ⊢
  split at hfits
  · cases hfits with
    | line hbody hrest => exact joins_lineComment hbody hrest
  · split at hfits
    · cases hfits with
      | block hbody => exact joins_blockComment hbody
    · exact joins_openComment hfits.1
  · next hslash hstar =>
    refine ⟨fun before after hsplit ↦ ?_, fun before after hsplit ↦ ?_⟩
    · -- The slash stands alone: what follows it makes no comment of it.
      have halone : behind code ('/' :: before) = behind code before := by
        refine Enclosure.behind_code_cons (by decide) fun _ ↦ ⟨fun h ↦ ?_, fun h ↦ ?_⟩ <;>
          obtain ⟨more, rfl⟩ := List.head?_eq_some_iff.1 h
        · exact hslash _ hsplit
        · exact hstar _ hsplit
      exact congrArg Enclosure.freesLineBreak halone
    · have hmem : '\n' ∈ (mark .slash).text := by simp [hsplit]
      exact absurd hmem (by decide)

/-- A quote opens a string, closed or not. -/
theorem joins_afterQuote (rest : List Char) : (afterQuote rest).1.Joins (afterQuote rest).2 := by
  unfold afterQuote
  split
  · exact joins_quoted fun hmem ↦ by simpa using List.mem_takeWhile_imp hmem
  · next hdrop =>
    refine joins_openQuote fun hmem ↦ ?_
    simpa using List.dropWhile_eq_nil_iff.1 hdrop '"' hmem

/-- A number ends before anything that could open something. -/
theorem joins_afterDigit {c : Char} (hc : c.isDigit = true) (rest : List Char) :
    (afterDigit c rest).1.Joins (afterDigit c rest).2 := by
  have hdigit : ∀ d : Char, d.isDigit = true → Ordinary d := fun _ ↦ ordinary_of_class (by decide)
  have hrun : ∀ (d : Char) (more : List Char), d.isDigit = true →
      ∀ d' ∈ d :: more.takeWhile Char.isDigit, Ordinary d' :=
    fun d more hd ↦ List.forall_mem_cons.2
      ⟨hdigit d hd, fun d' hd' ↦ hdigit d' (List.mem_takeWhile_imp hd')⟩
  unfold afterDigit
  split
  · next d after _ =>
    split
    · next hd =>
      refine joins_of_ordinary (List.forall_mem_append.2 ⟨hrun c rest hc, ?_⟩)
      exact List.forall_mem_cons.2 ⟨by decide, hrun d after hd⟩
    · exact joins_of_ordinary (hrun c rest hc)
  · exact joins_of_ordinary (hrun c rest hc)

/-- The pieces that are written without quotes, comments and line breaks. -/
def isPlain : Piece → Bool
  | mark _ | word _ | number _ _ | blank _ | stray _ => true
  | quoted _ | lineBreak | comment _ | openQuote _ | openComment _ => false

/-- What starts plain pieces only is an ordinary character. -/
theorem ordinary_of_isPlain {c : Char}
    (h : ∀ rest, rest.head? ≠ some '=' → (next c rest).1.isPlain = true) : Ordinary c := by
  intro hmem
  simp only [List.mem_cons, List.not_mem_nil, or_false] at hmem
  rcases hmem with rfl | rfl | rfl
  · exact absurd (h [] (by decide)) (by decide)
  · exact absurd (h ['/'] (by decide)) (by decide)
  · exact absurd (h [] (by decide)) (by decide)

/-- **Every piece joins what surrounds it.** -/
theorem next_joins (c : Char) (rest : List Char) : (next c rest).1.Joins (next c rest).2 := by
  cases starts c with
  | single kind spelled next_eq =>
    have hc := ordinary_of_isPlain fun rest _ ↦ by rw [next_eq]; rfl
    rw [next_eq]
    exact joins_of_ordinary (by simpa [text, spelled] using hc)
  | lengthened short long spelled spelledLong next_eq next_equals =>
    have hc := ordinary_of_isPlain fun rest hrest ↦ by rw [next_eq rest hrest]; rfl
    by_cases hequals : rest.head? = some '='
    · obtain ⟨after, rfl⟩ := List.head?_eq_some_iff.1 hequals
      have hlong : Ordinary c ∧ Ordinary '=' := ⟨hc, by decide⟩
      rw [next_equals]
      exact joins_of_ordinary (by simpa [text, spelledLong] using hlong)
    · rw [next_eq rest hequals]
      exact joins_of_ordinary (by simpa [text, spelled] using hc)
  | slash c_eq next_eq => exact next_eq rest ▸ joins_afterSlash rest
  | quote c_eq next_eq => exact next_eq rest ▸ joins_afterQuote rest
  | digit isDigit next_eq => exact next_eq rest ▸ joins_afterDigit isDigit rest
  | lineBreak c_eq next_eq =>
    rw [next_eq]
    refine ⟨fun before after _ ↦ ?_, fun _ _ _ ↦ .inl rfl⟩
    rw [text, List.singleton_append, Enclosure.behind_code_cons (by decide) (by simp)]
  | name next_eq =>
    have hc := ordinary_of_isPlain fun rest _ ↦ by rw [next_eq]; rfl
    rw [next_eq]
    exact joins_of_ordinary (List.forall_mem_cons.2
      ⟨hc, fun d hd ↦ ordinary_of_class (by decide) (List.mem_takeWhile_imp hd)⟩)
  | blank _ next_eq | stray _ next_eq =>
    have hc := ordinary_of_isPlain fun rest _ ↦ by rw [next_eq]; rfl
    rw [next_eq]
    exact joins_of_ordinary (by simpa [text] using hc)

end Piece

/-! ### What the walk remembers -/

/-- The parentheses that are open behind some tokens. A closing one that closes nothing does not
count. -/
def openParens (tokens : List Token) : Nat :=
  tokens.foldl (fun depth t ↦
    if t.kind = .leftParen then depth + 1 else if t.kind = .rightParen then depth - 1 else depth) 0

/-- A line break behind these tokens ends a statement: there is a last token, it neither separates
statements nor is a brace, and no parenthesis is open. -/
def Terminable (tokens : List Token) : Prop :=
  (∃ t ∈ tokens.getLast?, t.kind ∉ [.semicolon, .leftBrace, .rightBrace]) ∧ openParens tokens = 0

namespace Position

variable {p : Position} {seen : List Token} {read : List Char}

/-- The walk has made these tokens. -/
structure Remembers (p : Position) (seen : List Token) : Prop where
  depth : p.depth = openParens seen
  last : p.last = seen.getLast?.map Token.kind

/-- **The walk ends a statement by the rule.** -/
theorem Remembers.endsStatement_iff (h : p.Remembers seen) :
    p.endsStatement = true ↔ Terminable seen := by
  unfold endsStatement Terminable
  rw [h.depth, h.last]
  cases seen.getLast? with
  | none => simp
  | some t =>
    obtain ⟨kind, lexeme, line, column, index, value⟩ := t
    cases kind <;> simp

/-- What becomes no token is not remembered. -/
theorem Remembers.after (h : p.Remembers seen) (piece : Piece) :
    (p.after piece).Remembers (seen ++ (p.token? piece).toList) := by
  unfold Position.after token?
  cases p.reads piece with
  | none => exact ⟨by simpa using h.depth, by simpa using h.last⟩
  | some read =>
    obtain ⟨kind, value⟩ := read
    refine ⟨?_, by simp⟩
    have hdepth := h.depth
    unfold openParens at hdepth
    cases kind <;> simp [openParens, depthAfter, hdepth]

theorem byteSize_pos {text : List Char} (h : text ≠ []) : 0 < byteSize text := by
  obtain ⟨c, rest, rfl⟩ := List.exists_cons_of_ne_nil h
  rw [← List.singleton_append, byteSize_append]
  have hc : byteSize [c] = c.utf8Size := Nat.zero_add _
  have := c.utf8Size_pos
  omega

end Position

/-- The tokens behind those seen treat a line break by the rule: the one at this place becomes a
token if it is free and what stands before it can be ended, and nothing else stands there. -/
structure EndsByRule (seen tokens : List Token) (offset : Nat) (free : Bool) : Prop where
  exists_iff : (∃ t ∈ tokens, t.column = offset) ↔
    free = true ∧ Terminable (seen ++ tokens.filter (·.column < offset))
  isLineEnd : ∀ t ∈ tokens, t.column = offset → t.isLineEnd = true

namespace EndsByRule

variable {seen first later tokens : List Token} {offset : Nat} {free : Bool}

/-- Tokens before the position have no say in whether a separator stands there. -/
theorem append (hfirst : ∀ t ∈ first, t.column < offset)
    (h : EndsByRule (seen ++ first) later offset free) :
    EndsByRule seen (first ++ later) offset free := by
  have hkept : first.filter (·.column < offset) = first :=
    List.filter_eq_self.2 fun t ht ↦ decide_eq_true (hfirst t ht)
  have hnone : ∀ t ∈ first, t.column ≠ offset := fun t ht ↦ Nat.ne_of_lt (hfirst t ht)
  refine ⟨?_, fun t ht hoffset ↦ ?_⟩
  · rw [List.filter_append, hkept, ← List.append_assoc, ← h.exists_iff]
    simp only [List.mem_append]
    constructor
    · rintro ⟨t, ht, hoffset⟩
      exact ⟨t, ht.resolve_left fun ht ↦ hnone t ht hoffset, hoffset⟩
    · rintro ⟨t, ht, hoffset⟩
      exact ⟨t, .inr ht, hoffset⟩
  · exact h.isLineEnd t ((List.mem_append.1 ht).resolve_left fun ht ↦ hnone t ht hoffset) hoffset

/-- Without a token at the position there is no separator there. -/
theorem of_forall_ne (h : ∀ t ∈ tokens, t.column ≠ offset) : EndsByRule seen tokens offset false :=
  ⟨by simpa using h, fun t ht hoffset ↦ absurd hoffset (h t ht)⟩

end EndsByRule

namespace Position

variable {p : Position} {seen later : List Token} {read : List Char}

/-- The step at a line break. -/
theorem Remembers.endsByRule (hseen : p.Remembers seen) (hoffset : p.offset = byteSize read)
    (hlater : ∀ t ∈ later, byteSize read < t.column) :
    EndsByRule seen ((p.token? .lineBreak).toList ++ later) (byteSize read) true := by
  have hterminable := hseen.endsStatement_iff
  have hnone : later.filter (·.column < byteSize read) = [] :=
    List.filter_eq_nil_iff.2 fun t ht ↦ by simpa using (hlater t ht).le
  have hne : ∀ t ∈ later, t.column ≠ byteSize read := fun t ht ↦ (hlater t ht).ne'
  cases hends : p.endsStatement with
  | true =>
    have htoken : p.token? .lineBreak =
        some ⟨.semicolon, "\n", p.line, byteSize read, p.index, .nil⟩ := by
      simp only [token?, reads, hends, if_true, Option.map_some, hoffset]
      rfl
    have hseen' := hterminable.1 hends
    rw [htoken, Option.toList_some, List.singleton_append]
    refine ⟨?_, ?_⟩
    · simp [hnone, hseen']
    · refine List.forall_mem_cons.2 ⟨fun _ ↦ rfl, fun t ht h ↦ absurd h (hne t ht)⟩
  | false =>
    have htoken : p.token? .lineBreak = none := by simp [token?, reads, hends]
    have hseen' : ¬ Terminable seen := fun h ↦ by simp [hterminable.2 h] at hends
    rw [htoken, Option.toList_none, List.nil_append]
    refine ⟨?_, fun t ht h ↦ absurd h (hne t ht)⟩
    simpa [hnone, hseen'] using hne

/-- A character of two texts stands in the second or in the first. -/
theorem behind_or_inside {text more before after : List Char} {c : Char}
    (h : text ++ more = before ++ c :: after) :
    (∃ inner, before = text ++ inner ∧ more = inner ++ c :: after) ∨
      ∃ inner, text = before ++ c :: inner := by
  rcases List.append_eq_append_iff.1 h with hbehind | ⟨inner, rfl, hinner⟩
  · exact .inl hbehind
  · cases inner with
    | nil => exact .inl ⟨[], by simpa using hinner.symm⟩
    | cons d inner =>
      cases hinner
      exact .inr ⟨inner, rfl⟩

/-- **A line break becomes a token by the rule**, from any place in a source on. -/
theorem Behind.endsByRule (hbehind : p.Behind read) (hseen : p.Remembers seen)
    {rest before after : List Char} (hrest : rest = before ++ '\n' :: after) :
    EndsByRule seen (Scan.ofPieces p (Piece.split rest)).tokens (byteSize (read ++ before))
      (behind code before).freesLineBreak := by
  fun_induction Piece.split rest generalizing p read seen before with
  | case1 => simp at hrest
  | case2 c rest ih =>
    rcases hnext : Piece.next c rest with ⟨piece, more⟩
    have hjoins := Piece.next_joins c rest
    have htext := Piece.next_text c rest
    have hne := Piece.next_text_ne_nil c rest
    simp only [hnext] at ih hjoins htext hne ⊢
    have hafter := hbehind.after piece
    have hfirst : ∀ t ∈ (p.token? piece).toList, t.column = byteSize read := fun t ht ↦
      (hbehind.occupies hne (Option.mem_toList.1 ht)).column
    have hlater : ∀ t ∈ (Scan.ofPieces (p.after piece) (Piece.split more)).tokens,
        byteSize (read ++ piece.text) ≤ t.column := fun t ht ↦
      (hafter.account_ofPieces more).le_column ht
    rw [Scan.ofPieces]
    rw [hrest] at htext
    have hpos := byteSize_pos hne
    rcases behind_or_inside htext with ⟨before, rfl, hmore⟩ | ⟨inner, hinner⟩
    · -- The line break stands behind the piece.
      rw [hjoins.through before after hmore, ← List.append_assoc]
      refine .append (fun t ht ↦ ?_) (ih hafter (hseen.after piece) hmore)
      rw [hfirst t ht, List.append_assoc, byteSize_append, byteSize_append]
      omega
    · rcases hjoins.inside before inner hinner with rfl | hsurrounded
      · -- The line break is the piece.
        obtain ⟨rfl, rfl⟩ : before = [] ∧ inner = [] := by
          simpa [Piece.text, List.singleton_eq_append_iff] using hinner
        rw [List.append_nil]
        refine hseen.endsByRule hbehind.offset fun t ht ↦ ?_
        have := hlater t ht
        rw [byteSize_append] at this
        omega
      · -- The line break stands in the piece, behind its first character.
        rw [hsurrounded]
        have hbefore : before ≠ [] := by
          rintro rfl
          exact Bool.noConfusion hsurrounded
        have := byteSize_pos hbefore
        refine .of_forall_ne fun t ht ↦ ?_
        rcases List.mem_append.1 ht with ht | ht
        · rw [hfirst t ht, byteSize_append]
          omega
        · have hle := hlater t ht
          have := byteSize_pos (List.cons_ne_nil '\n' inner)
          rw [hinner, byteSize_append, byteSize_append] at hle
          rw [byteSize_append]
          omega

/-- Before anything is scanned, nothing is behind the scanner. -/
theorem behind_start (index : Nat) : (start index).Behind [] :=
  ⟨rfl, rfl⟩

end Position

namespace Scan

variable {index : Nat} {source : String} {before after : List Char} {t : Token}

/-- **The rule for the line breaks of a source.** -/
theorem endsByRule_ofSource (index : Nat) (h : source.toList = before ++ '\n' :: after) :
    EndsByRule [] (ofSource index source).tokens (byteSize before)
      (behind code before).freesLineBreak :=
  (Position.behind_start index).endsByRule ⟨rfl, rfl⟩ h

/-- A semicolon that is spelled as a line break stands for one. -/
theorem exists_lineBreak (ht : t ∈ (ofSource index source).tokens) (hend : t.isLineEnd = true) :
    ∃ before after, source.toList = before ++ '\n' :: after ∧ t.column = byteSize before := by
  have haccount := (Position.behind_start index).account_ofPieces source.toList
  obtain ⟨before, text, after, hsource, hoccupies⟩ := haccount.exists_occupies ht
  have hlexeme : t.lexeme = "\n" := by
    simpa using (Bool.and_eq_true_iff.1 hend).2
  have htext : text = ['\n'] := by
    have := hoccupies.lexeme.symm.trans hlexeme
    simpa using congrArg String.toList this
  rw [htext] at hsource
  exact ⟨before, after, hsource, hoccupies.column⟩

/-- The tokens of a source start one behind the other. -/
theorem pairwise_column_lt (index : Nat) (source : String) :
    (ofSource index source).tokens.Pairwise (·.column < ·.column) := by
  have haccount := (Position.behind_start index).account_ofPieces source.toList
  refine haccount.pairwise_column.imp_of_mem fun {t t'} ht _ hle ↦ ?_
  obtain ⟨before, text, after, -, hoccupies⟩ := haccount.exists_occupies ht
  have hpos := Position.byteSize_pos hoccupies.ne_nil
  rw [Position.byteSize_eq, ← hoccupies.lexeme] at hpos
  omega

/-- What stands before a line break that became a token can be ended. -/
theorem terminable_of_isLineEnd {front back : List Token}
    (h : (ofSource index source).tokens = front ++ t :: back) (hend : t.isLineEnd = true) :
    Terminable front := by
  have ht : t ∈ (ofSource index source).tokens := by simp [h]
  obtain ⟨before, after, hsource, hcolumn⟩ := exists_lineBreak ht hend
  have hrule := ((endsByRule_ofSource index hsource).exists_iff.1 ⟨t, ht, hcolumn⟩).2
  have hpairwise := pairwise_column_lt index source
  rw [h, List.pairwise_append, List.pairwise_cons] at hpairwise
  obtain ⟨-, ⟨hback, -⟩, hfront⟩ := hpairwise
  have hkept : front.filter (·.column < t.column) = front :=
    List.filter_eq_self.2 fun t' ht' ↦ decide_eq_true (hfront t' ht' t List.mem_cons_self)
  have hdropped : (t :: back).filter (·.column < t.column) = [] := by
    refine List.filter_eq_nil_iff.2 (List.forall_mem_cons.2 ⟨by simp, fun t' ht' ↦ ?_⟩)
    simpa using (hback t' ht').le
  rwa [← hcolumn, h, List.filter_append, hkept, hdropped, List.append_nil] at hrule

end Scan

/-- **A line break ends a statement exactly where the rule says.** A line break becomes a token, a
semicolon, if it stands outside of quoted text and comments and the tokens before it can be ended;
every semicolon that is spelled as a line break stands for a line break of the source; and so none
is the first token or follows another semicolon. -/
theorem Scan.lineEnds_ofSource (index : Nat) (source : String) :
    (∀ before after, source.toList = before ++ '\n' :: after →
      ((∃ t ∈ (ofSource index source).tokens, t.kind = .semicolon ∧ t.lexeme = "\n" ∧
          t.column = byteSize before) ↔
        (Enclosure.code.behind before).freesLineBreak = true ∧
          Terminable ((ofSource index source).tokens.filter (·.column < byteSize before))) ∧
      ∀ t ∈ (ofSource index source).tokens, t.column = byteSize before → t.isLineEnd = true) ∧
    (∀ t ∈ (ofSource index source).tokens, t.isLineEnd = true →
      ∃ before after, source.toList = before ++ '\n' :: after ∧ t.column = byteSize before) ∧
    (∀ t ∈ (ofSource index source).tokens.head?, t.isLineEnd = false) ∧
    (ofSource index source).tokens.IsChain fun t t' ↦
      t.kind = .semicolon → t'.isLineEnd = false := by
  refine ⟨fun before after hsource ↦ ?_, fun t ht hend ↦ exists_lineBreak ht hend, ?_, ?_⟩
  · have hrule := endsByRule_ofSource index hsource
    refine ⟨⟨?_, fun h ↦ ?_⟩, hrule.isLineEnd⟩
    · rintro ⟨t, ht, -, -, hcolumn⟩
      exact hrule.exists_iff.1 ⟨t, ht, hcolumn⟩
    · obtain ⟨t, ht, hcolumn⟩ := hrule.exists_iff.2 h
      have hend := hrule.isLineEnd t ht hcolumn
      simp only [Token.isLineEnd, Bool.and_eq_true, beq_iff_eq] at hend
      exact ⟨t, ht, hend.1, hend.2, hcolumn⟩
  · intro t ht
    obtain ⟨back, htokens⟩ := List.head?_eq_some_iff.1 ht
    refine Bool.eq_false_iff.2 fun hend ↦ ?_
    have hnone : Terminable [] := terminable_of_isLineEnd htokens hend
    obtain ⟨⟨last, hlast, -⟩, -⟩ := hnone
    cases hlast
  · refine List.isChain_iff_forall_rel_of_append_cons_cons.2 fun t t' front back htokens hkind ↦ ?_
    refine Bool.eq_false_iff.2 fun hend ↦ ?_
    have hsplit : (ofSource index source).tokens = (front ++ [t]) ++ t' :: back := by
      simp [htokens]
    obtain ⟨⟨last, hlast, hallowed⟩, -⟩ := terminable_of_isLineEnd hsplit hend
    rw [List.getLast?_concat] at hlast
    cases hlast
    simp [hkind] at hallowed

end AliasScript
