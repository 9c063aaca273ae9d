/-!
# Tokens

A token is a stretch of a source with its kind, its place and, for literals, its value. Every token
also has an index. Indices go on counting from one source to the next, so within one run of the
program an index names one token, and with it the use of a name that the token stands for.
-/

namespace AliasScript

/-- The kinds of tokens. -/
inductive Kind where
  | leftParen | rightParen | leftBrace | rightBrace | leftBracket | rightBracket
  | comma | dot | minus | plus | semicolon | slash | star | percent | colon | question | ampersand
  | bang | bangEqual | equal | equalEqual | greater | greaterEqual | less | lessEqual
  | identifier | string | number
  | andWord | classWord | elseWord | falseWord | forWord | funWord | ifWord | importWord | nilWord
  | orWord | returnWord | superWord | thisWord | trueWord | varWord | whileWord
  | eof
deriving DecidableEq, Repr

namespace Kind

/-- How a mark or a keyword is spelled. The other kinds have no spelling of their own. -/
def spelling : Kind → String
  | leftParen => "(" | rightParen => ")" | leftBrace => "\x7b" | rightBrace => "\x7d"
  | leftBracket => "[" | rightBracket => "]"
  | comma => "," | dot => "." | minus => "-" | plus => "+" | semicolon => ";" | slash => "/"
  | star => "*" | percent => "%" | colon => ":" | question => "?" | ampersand => "&"
  | bang => "!" | bangEqual => "!=" | equal => "=" | equalEqual => "=="
  | greater => ">" | greaterEqual => ">=" | less => "<" | lessEqual => "<="
  | identifier => "" | string => "" | number => ""
  | andWord => "and" | classWord => "class" | elseWord => "else" | falseWord => "false"
  | forWord => "for" | funWord => "fun" | ifWord => "if" | importWord => "import"
  | nilWord => "nil" | orWord => "or" | returnWord => "return" | superWord => "super"
  | thisWord => "this" | trueWord => "true" | varWord => "var" | whileWord => "while"
  | eof => ""

/-- The words that are no names. -/
def keywords : List Kind :=
  [andWord, classWord, elseWord, falseWord, forWord, funWord, ifWord, importWord, nilWord, orWord,
    returnWord, superWord, thisWord, trueWord, varWord, whileWord]

/-- The kind of a word: a keyword, or else a name. -/
def ofWord (word : String) : Kind :=
  (keywords.find? fun kind ↦ kind.spelling == word).getD identifier

end Kind

/-- The value of a literal. -/
inductive Literal where
  | nil
  | bool (value : Bool)
  | num (value : Float)
  | str (value : String)
deriving DecidableEq, Repr

/-- A token. -/
structure Token where
  kind : Kind
  lexeme : String
  /-- The line on which the token ends; a line break that ends a statement belongs to the line that
  it closes. -/
  line : Nat
  /-- The number of bytes of the source before the token. -/
  column : Nat
  /-- The number of tokens made before this one, in all sources. -/
  index : Nat
  value : Literal
deriving DecidableEq, Repr

namespace Token

/-- A line break that stands for a semicolon. -/
def isLineEnd (t : Token) : Bool :=
  t.kind == .semicolon && t.lexeme == "\n"

/-- Where an error message says that it found the token. -/
def place (t : Token) : String :=
  if t.kind == .eof then " at end"
  else if t.isLineEnd then " at newline"
  else " at '" ++ t.lexeme ++ "'"

end Token

end AliasScript
