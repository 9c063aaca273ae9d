import AliasScript.Number.Decimal
import AliasScript.Token.Piece

/-!
# Scanning

Scanning walks over the pieces of a source and makes tokens of them. The walk keeps the line, the
number of bytes read, how many parentheses are open and the kind of the last token, which is what
decides whether a line break ends a statement. Scanning never stops at an error: what starts no
token is reported, and the walk goes on behind it.
-/

namespace AliasScript

/-- What can be wrong with a stretch of a source. -/
inductive LexicalCause where
  | unterminatedComment
  | unterminatedString
  | unexpectedCharacter (c : Char)
  | unrecognizedEscape (c : Char)
deriving DecidableEq, Repr

namespace LexicalCause

/-- What a report says of the cause. -/
def message : LexicalCause → String
  | unterminatedComment => "Unterminated block comment."
  | unterminatedString => "Unterminated string."
  | unexpectedCharacter c => "Unexpected character '" ++ String.singleton c ++ "'."
  | unrecognizedEscape c => "Unrecognised escape sequence '\\" ++ String.singleton c ++ "'."

end LexicalCause

/-- An error of a source, with the line on which it was noticed. -/
structure LexicalError where
  line : Nat
  cause : LexicalCause
deriving DecidableEq, Repr

/-- The meaning of a quoted body, and the escapes in it that mean nothing. An unknown escape
stands for the character itself, and a backslash at the very end for a backslash. -/
def unescape : List Char → List Char × List Char
  | [] => ([], [])
  | ['\\'] => (['\\'], ['"'])
  | '\\' :: 'n' :: rest =>
    let (value, unknown) := unescape rest
    ('\n' :: value, unknown)
  | '\\' :: '\\' :: rest =>
    let (value, unknown) := unescape rest
    ('\\' :: value, unknown)
  | '\\' :: c :: rest =>
    let (value, unknown) := unescape rest
    (c :: value, c :: unknown)
  | c :: rest =>
    let (value, unknown) := unescape rest
    (c :: value, unknown)

/-- Where the walk over the pieces stands. -/
structure Position where
  line : Nat
  /-- The number of bytes read. -/
  offset : Nat
  /-- The index of the next token. -/
  index : Nat
  /-- The parentheses that are open. A closing one that closes nothing does not count. -/
  depth : Nat
  /-- The kind of the last token of this source. -/
  last : Option Kind
deriving DecidableEq, Repr

namespace Position

/-- The start of a source. -/
def start (index : Nat) : Position :=
  ⟨1, 0, index, 0, none⟩

/-- Whether a line break here ends a statement: something has to have been said, and not have been
ended already, and no parenthesis may be open. -/
def endsStatement (p : Position) : Bool :=
  p.depth == 0 &&
    match p.last with
    | none | some .semicolon | some .leftBrace | some .rightBrace => false
    | some _ => true

/-- The kind and the value of the token that a piece becomes, if it becomes one. -/
def reads (p : Position) : Piece → Option (Kind × Literal)
  | .mark kind => some (kind, .nil)
  | .word text =>
    match Kind.ofWord (String.ofList text) with
    | .trueWord => some (.trueWord, .bool true)
    | .falseWord => some (.falseWord, .bool false)
    | kind => some (kind, .nil)
  | .number whole fraction =>
    some (.number,
      .num (Decimal.ofDigits (whole ++ fraction) (-(fraction.length : Int))).toFloat)
  | .quoted body => some (.string, .str (String.ofList (unescape body).1))
  | .lineBreak => if p.endsStatement then some (.semicolon, .nil) else none
  | _ => none

/-- The line on which a piece ends. -/
def lineAfter (p : Position) (piece : Piece) : Nat :=
  p.line + piece.text.count '\n'

/-- What is wrong with a piece. -/
def complaints (p : Position) (piece : Piece) : List LexicalError :=
  let causes : List LexicalCause := match piece with
    | .quoted body => (unescape body).2.map .unrecognizedEscape
    | .stray c => [.unexpectedCharacter c]
    | .openQuote _ => [.unterminatedString]
    | .openComment _ => [.unterminatedComment]
    | _ => []
  causes.map fun cause ↦ ⟨p.lineAfter piece, cause⟩

/-- The line of the token that a piece becomes: a line break belongs to the line that it closes. -/
def tokenLine (p : Position) : Piece → Nat
  | .lineBreak => p.line
  | piece => p.lineAfter piece

/-- The token that a piece becomes, if it becomes one. -/
def token? (p : Position) (piece : Piece) : Option Token :=
  (p.reads piece).map fun (kind, value) ↦
    ⟨kind, String.ofList piece.text, p.tokenLine piece, p.offset, p.index, value⟩

/-- The open parentheses after a token. -/
def depthAfter (p : Position) : Kind → Nat
  | .leftParen => p.depth + 1
  | .rightParen => p.depth - 1
  | _ => p.depth

/-- The number of bytes of a text. -/
def byteSize (text : List Char) : Nat :=
  text.foldl (fun size c ↦ size + c.utf8Size) 0

/-- Where the walk stands after a piece. -/
def after (p : Position) (piece : Piece) : Position :=
  let line := p.lineAfter piece
  let offset := p.offset + byteSize piece.text
  match p.reads piece with
  | some (kind, _) => ⟨line, offset, p.index + 1, p.depthAfter kind, some kind⟩
  | none => ⟨line, offset, p.index, p.depth, p.last⟩

/-- The token for the end of the source. -/
def eof (p : Position) : Token :=
  ⟨.eof, "", p.line, p.offset, p.index, .nil⟩

end Position

/-- What scanning a source gives: its tokens, the token for its end, and its errors in the order in
which they were found. -/
structure Scan where
  tokens : List Token
  eof : Token
  errors : List LexicalError
deriving DecidableEq, Repr

namespace Scan

/-- The tokens and errors of the pieces from a position on. -/
def ofPieces (p : Position) : List Piece → Scan
  | [] => ⟨[], p.eof, []⟩
  | piece :: rest =>
    let s := ofPieces (p.after piece) rest
    ⟨(p.token? piece).toList ++ s.tokens, s.eof, p.complaints piece ++ s.errors⟩

/-- Scans a source whose first token gets the given index. -/
def ofSource (index : Nat) (source : String) : Scan :=
  ofPieces (.start index) (Piece.split source.toList)

/-- All tokens, with the end. -/
def all (s : Scan) : List Token :=
  s.tokens ++ [s.eof]

/-- The index of the first token of the next source. -/
def nextIndex (s : Scan) : Nat :=
  s.eof.index + 1

end Scan

end AliasScript
