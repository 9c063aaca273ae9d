import AliasScript.Text.Letter
import AliasScript.Token

/-!
# Pieces of text

A source is cut into pieces, one after the other: marks, words, numbers, quoted text, blanks, line
breaks, comments, and what is none of these. Cutting looks at characters only; which pieces become
tokens, and on which line, is decided afterwards.

`Piece.next_text` says that a piece and the rest are the text that was there, and `Piece.text_split`
that all pieces together are the source: nothing is lost and nothing is read twice.
-/

namespace AliasScript

/-- A lexical stretch of a source. -/
inductive Piece where
  /-- An operator or a bracket. -/
  | mark (kind : Kind)
  /-- A keyword or a name. -/
  | word (text : List Char)
  /-- Digits, with or without a point and digits after it. -/
  | number (whole fraction : List Char)
  /-- The characters between two quotes, as they stand there. -/
  | quoted (body : List Char)
  | blank (c : Char)
  | lineBreak
  /-- A whole comment, of either form. -/
  | comment (text : List Char)
  /-- A character that starts no piece. -/
  | stray (c : Char)
  /-- A quote and all that follows it, where no second quote does. -/
  | openQuote (body : List Char)
  /-- A block comment that runs to the end of the source. -/
  | openComment (text : List Char)
deriving DecidableEq, Repr

namespace Piece

/-- The characters of a piece. -/
def text : Piece → List Char
  | mark kind => kind.spelling.toList
  | word text => text
  | number whole fraction => if fraction.isEmpty then whole else whole ++ '.' :: fraction
  | quoted body => '"' :: body ++ ['"']
  | blank c => [c]
  | lineBreak => ['\n']
  | comment text => text
  | stray c => [c]
  | openQuote body => '"' :: body
  | openComment text => text

/-! ### The forms of pieces -/

/-- The marks of one character that start no longer mark. -/
def single? : Char → Option Kind
  | '(' => some .leftParen
  | ')' => some .rightParen
  | '\x7b' => some .leftBrace
  | '\x7d' => some .rightBrace
  | '[' => some .leftBracket
  | ']' => some .rightBracket
  | ',' => some .comma
  | '.' => some .dot
  | '-' => some .minus
  | '+' => some .plus
  | ';' => some .semicolon
  | '*' => some .star
  | '%' => some .percent
  | ':' => some .colon
  | '?' => some .question
  | '&' => some .ampersand
  | _ => none

/-- The marks that an equals sign may lengthen: the short one and the long one. -/
def lengthened? : Char → Option (Kind × Kind)
  | '!' => some (.bang, .bangEqual)
  | '=' => some (.equal, .equalEqual)
  | '<' => some (.less, .lessEqual)
  | '>' => some (.greater, .greaterEqual)
  | _ => none

/-- Blanks separate pieces and mean nothing else. -/
def isBlank (c : Char) : Bool :=
  c == ' ' || c == '\t' || c == '\r'

/-- The text of a block comment up to its end and what follows it, where `depth` comments are open.
Comments nest. -/
def closeComment? : Nat → List Char → Option (List Char × List Char)
  | 0, rest => some ([], rest)
  | _ + 1, [] => none
  | depth + 1, '/' :: '*' :: rest =>
    (closeComment? (depth + 2) rest).map fun r ↦ ('/' :: '*' :: r.1, r.2)
  | depth + 1, '*' :: '/' :: rest =>
    (closeComment? depth rest).map fun r ↦ ('*' :: '/' :: r.1, r.2)
  | depth + 1, c :: rest =>
    (closeComment? (depth + 1) rest).map fun r ↦ (c :: r.1, r.2)

/-- What a slash starts. -/
def afterSlash : List Char → Piece × List Char
  | '/' :: rest =>
    (comment ('/' :: '/' :: rest.takeWhile (· != '\n')), rest.dropWhile (· != '\n'))
  | '*' :: rest =>
    match closeComment? 1 rest with
    | some (body, rest) => (comment ('/' :: '*' :: body), rest)
    | none => (openComment ('/' :: '*' :: rest), [])
  | rest => (mark .slash, rest)

/-- What a quote starts. -/
def afterQuote (rest : List Char) : Piece × List Char :=
  match rest.dropWhile (· != '"') with
  | _ :: after => (quoted (rest.takeWhile (· != '"')), after)
  | [] => (openQuote rest, [])

/-- The number that a digit starts. A point belongs to it only if a digit follows. -/
def afterDigit (c : Char) (rest : List Char) : Piece × List Char :=
  let whole := c :: rest.takeWhile Char.isDigit
  match rest.dropWhile Char.isDigit with
  | '.' :: d :: after =>
    if d.isDigit then
      (number whole (d :: after.takeWhile Char.isDigit), after.dropWhile Char.isDigit)
    else (number whole [], '.' :: d :: after)
  | after => (number whole [], after)

/-- The piece that starts with a character, and what follows it. -/
def next (c : Char) (rest : List Char) : Piece × List Char :=
  match single? c with
  | some kind => (mark kind, rest)
  | none =>
    match lengthened? c with
    | some (short, long) =>
      match rest with
      | '=' :: after => (mark long, after)
      | after => (mark short, after)
    | none =>
      if c == '/' then afterSlash rest
      else if c == '"' then afterQuote rest
      else if isBlank c then (blank c, rest)
      else if c == '\n' then (lineBreak, rest)
      else if c.isDigit then afterDigit c rest
      else if Text.startsName c then
        (word (c :: rest.takeWhile Text.continuesName), rest.dropWhile Text.continuesName)
      else (stray c, rest)

/-! ### A piece and the rest are the whole -/

theorem closeComment?_text {depth : Nat} {text body rest : List Char}
    (h : closeComment? depth text = some (body, rest)) : body ++ rest = text := by
  fun_induction closeComment? depth text generalizing body rest with
  | case1 => simp_all
  | case2 => simp at h
  | case3 depth text ih | case4 depth text ih | case5 depth c text _ _ ih =>
    obtain ⟨r, hr, hrest⟩ := Option.map_eq_some_iff.1 h
    simp only [Prod.mk.injEq] at hrest
    obtain ⟨rfl, rfl⟩ := hrest
    simp [ih hr]

theorem afterSlash_text (rest : List Char) :
    (afterSlash rest).1.text ++ (afterSlash rest).2 = '/' :: rest := by
  unfold afterSlash
  split
  · simp [text, List.takeWhile_append_dropWhile]
  · split
    · next h => simp [text, closeComment?_text h]
    · simp [text]
  · rfl

theorem afterQuote_text (rest : List Char) :
    (afterQuote rest).1.text ++ (afterQuote rest).2 = '"' :: rest := by
  unfold afterQuote
  split
  · next q after h =>
    have hq : q = '"' := by
      have := List.head?_dropWhile_not (fun c : Char ↦ c != '"') rest
      rw [h] at this
      simpa using this
    have := List.takeWhile_append_dropWhile (p := fun c : Char ↦ c != '"') (l := rest)
    rw [h, hq] at this
    simp [text, this]
  · simp [text]

theorem afterDigit_text (c : Char) (rest : List Char) :
    (afterDigit c rest).1.text ++ (afterDigit c rest).2 = c :: rest := by
  have hrest := List.takeWhile_append_dropWhile (p := Char.isDigit) (l := rest)
  unfold afterDigit
  split
  · next d after h =>
    rw [h] at hrest
    split
    · simp [text, List.takeWhile_append_dropWhile, hrest]
    · simp [text, hrest]
  · simp [text, hrest]

theorem single?_text {c : Char} {kind : Kind} (h : single? c = some kind) :
    kind.spelling.toList = [c] := by
  unfold single? at h
  split at h <;> simp_all <;> subst h <;> rfl

theorem lengthened?_text {c : Char} {short long : Kind} (h : lengthened? c = some (short, long)) :
    short.spelling.toList = [c] ∧ long.spelling.toList = [c, '='] := by
  unfold lengthened? at h
  split at h <;> simp_all <;> obtain ⟨rfl, rfl⟩ := h <;> exact ⟨rfl, rfl⟩

/-- **A piece and the rest are the text that was there.** -/
theorem next_text (c : Char) (rest : List Char) :
    (next c rest).1.text ++ (next c rest).2 = c :: rest := by
  unfold next
  split
  · next kind h => simp [text, single?_text h]
  · split
    · next short long h =>
      obtain ⟨hshort, hlong⟩ := lengthened?_text h
      split <;> simp [text, hshort, hlong]
    · split
      · next h => rw [eq_of_beq h, afterSlash_text]
      · split
        · next h => rw [eq_of_beq h, afterQuote_text]
        · split
          · simp [text]
          · split
            · next h => simp [text, eq_of_beq h]
            · split
              · exact afterDigit_text c rest
              · split <;> simp [text, List.takeWhile_append_dropWhile]

/-- No piece is empty. -/
theorem next_text_ne_nil (c : Char) (rest : List Char) : (next c rest).1.text ≠ [] := by
  unfold next
  split
  · next kind h => simp [text, single?_text h]
  · split
    · next short long h =>
      obtain ⟨hshort, hlong⟩ := lengthened?_text h
      split <;> simp [text, hshort, hlong]
    · split
      · unfold afterSlash
        split
        · simp [text]
        · split <;> simp [text]
        · simp [text, Kind.spelling]
      · split
        · unfold afterQuote
          split <;> simp [text]
        · split
          · simp [text]
          · split
            · simp [text]
            · split
              · unfold afterDigit
                split
                · split <;> simp [text]
                · simp [text]
              · split <;> simp [text]

theorem length_next (c : Char) (rest : List Char) :
    (next c rest).2.length < (c :: rest).length := by
  have hlen := congrArg List.length (next_text c rest)
  have hpos := List.length_pos_iff.2 (next_text_ne_nil c rest)
  simp only [List.length_append] at hlen
  omega

/-! ### All pieces of a source -/

/-- The pieces of a text. -/
def split : List Char → List Piece
  | [] => []
  | c :: rest => (next c rest).1 :: split (next c rest).2
termination_by text => text.length
decreasing_by exact length_next c rest

/-- **The pieces of a text, put together again, are the text.** -/
theorem text_split (source : List Char) : (split source).flatMap text = source := by
  fun_induction split source with
  | case1 => rfl
  | case2 c rest ih => simp [ih, next_text]

end Piece

end AliasScript
