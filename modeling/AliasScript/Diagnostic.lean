import AliasScript.Program.Grammar
import AliasScript.Scope

/-!
# Diagnostics

All that can be wrong with a source before it is run, and how it is reported.
-/

namespace AliasScript

/-- An error of a source. -/
inductive Diagnostic where
  | lexical (e : LexicalError)
  | grammar (e : GrammarError)
  | scope (e : ScopeError)
deriving DecidableEq, Repr

namespace Diagnostic

/-- The line that the error is reported for. -/
def line : Diagnostic → Nat
  | lexical e => e.line
  | grammar e => e.token.line
  | scope e => e.token.line

/-- The token that the error is about. -/
def token? : Diagnostic → Option Token
  | lexical _ => none
  | grammar e => some e.token
  | scope e => some e.token

/-- What is wrong. -/
def message : Diagnostic → String
  | lexical e => e.cause.message
  | grammar e => e.cause.message
  | scope e => e.cause.message

/-- The error as it is reported: its line, its place and what is wrong. -/
def render (d : Diagnostic) : String :=
  "[line " ++ toString d.line ++ "] Error" ++ d.token?.elim "" Token.place ++ ": " ++ d.message

/-- Several errors, each on a line of its own. -/
def renderAll (errors : List Diagnostic) : String :=
  String.intercalate "\n" (errors.map render)

/-- Errors in the order of their lines. Errors of one line keep their order. -/
def sortByLine (errors : List Diagnostic) : List Diagnostic :=
  errors.mergeSort fun a b ↦ a.line ≤ b.line

end Diagnostic

/-- A source that can be run: the program, and the addresses of the names in it. -/
structure Resolved where
  program : Program
  addresses : List Address

namespace Scan

/-- The program of a source without lexical errors. Lexical errors and grammar errors are reported
together. -/
def program? (s : Scan) : Except (List Diagnostic) Program :=
  let lexical := s.errors.map Diagnostic.lexical
  match s.program with
  | .ok program => if lexical.isEmpty then .ok program else .error (Diagnostic.sortByLine lexical)
  | .error grammar => .error (Diagnostic.sortByLine (lexical ++ grammar.map Diagnostic.grammar))

end Scan

/-- The program with the addresses of its names. -/
def Program.resolve (program : Program) : Except (List Diagnostic) Resolved :=
  match program.addresses with
  | .ok addresses => .ok ⟨program, addresses⟩
  | .error errors => .error (errors.map Diagnostic.scope)

end AliasScript
