import AliasScript.Program.Grammar.Statement
import AliasScript.Token.Scan

/-!
# The grammar

The recursion of the grammar, over levels of nesting. A parser calls the level below only after
reading a token, so as many levels as there are tokens are enough for every program.
-/

namespace AliasScript

namespace Grammar

variable (g : Grammar)

/-- The parsers one level of nesting up. -/
def above : Grammar where
  rounds := g.rounds
  unary := unaryHere g
  ternary := ternaryHere g
  assignment := assignmentHere g
  expression := expressionHere g
  statement := statementHere g
  block := blockHere g

/-- The parsers below all levels of nesting. -/
def bottom (rounds : Nat) : Grammar where
  rounds := rounds
  unary := .exhausted
  ternary := .exhausted
  assignment := .exhausted
  expression := .exhausted
  statement := .exhausted
  block := .exhausted

/-- The parsers for so many levels of nesting. -/
def ofDepth (rounds : Nat) : Nat → Grammar
  | 0 => bottom rounds
  | n + 1 => above (ofDepth rounds n)

/-- Declarations up to the end. -/
def programFrom : Nat → Parse Program
  | 0 => .exhausted
  | n + 1 => do
    if ← Parse.atEnd then return []
    else
      let s ← declaration g
      return s.toList ++ (← programFrom n)

end Grammar

namespace Program

/-- The program that a list of tokens says, or what is wrong with it, in the order of notice. -/
def parse (tokens : List Token) (eof : Token) : Except (List GrammarError) Program :=
  let bound := tokens.length + 1
  match (Grammar.ofDepth bound bound).programFrom bound ⟨tokens, eof, none, #[]⟩ with
  | .ok program c => if c.errors.isEmpty then .ok program else .error c.errors.toList
  | .error _ c => .error c.errors.toList

end Program

/-- The program of a scanned source. -/
def Scan.program (s : Scan) : Except (List GrammarError) Program :=
  Program.parse s.tokens s.eof

end AliasScript
