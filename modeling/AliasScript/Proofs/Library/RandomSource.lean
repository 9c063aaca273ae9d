import AliasScript.Diagnostic
import AliasScript.Library
import AliasScript.Proofs.Token.Numbering
import AliasScript.Proofs.Token.Scanned

/-!
# The program of the random numbers

The source of the module with random numbers gives the same program wherever the count of tokens
stands when it is loaded (`Library.exists_tokens`): a tree over its tokens, which are known by their
places in the source, and the distances of the few names in it that are not global.
-/

namespace AliasScript

namespace Library

/-! ### Tokens -/

/-- What a mark or a keyword says. -/
def mark (kind : Kind) : Kind × String × Literal :=
  (kind, kind.spelling, .nil)

/-- What a name says. -/
def word (spelling : String) : Kind × String × Literal :=
  (.identifier, spelling, .nil)

/-- What a whole number says. -/
def numeral (n : Nat) : Kind × String × Literal :=
  (.number, toString n, .num (Float.ofNat n))

/-- What a line end says that closes a statement. -/
def lineEnd : Kind × String × Literal :=
  (.semicolon, "\n", .nil)

/-- What the tokens of the module with random numbers say, in their order. -/
def randomContents : List (Kind × String × Literal) :=
  [mark .importWord, (.string, "\"std:Bitwise\"", .str "std:Bitwise"), lineEnd,
    mark .varWord, word "_stdRandomSeed", mark .equal, word "clock", mark .leftParen,
    mark .rightParen, lineEnd,
    mark .classWord, word "Random", mark .leftBrace,
    mark .classWord, word "seed", mark .leftParen, word "number", mark .rightParen,
    mark .leftBrace, word "_stdRandomSeed", mark .equal, word "number", lineEnd, mark .rightBrace,
    mark .classWord, word "random", mark .leftParen, mark .rightParen, mark .leftBrace,
    word "_stdRandomSeed", mark .equal, mark .leftParen, numeral 1103515245, mark .star,
    word "_stdRandomSeed", mark .plus, numeral 12345, mark .rightParen, mark .percent,
    numeral 2147483648, lineEnd,
    mark .returnWord, word "Bitwise", mark .dot, word "rightShift", mark .leftParen,
    word "_stdRandomSeed", mark .comma, numeral 0, mark .rightParen, lineEnd, mark .rightBrace,
    mark .classWord, word "inRange", mark .leftParen, word "min", mark .comma, word "max",
    mark .rightParen, mark .leftBrace,
    mark .returnWord, word "min", mark .plus, word "round", mark .leftParen, mark .leftParen,
    word "max", mark .minus, word "min", mark .plus, numeral 1, mark .rightParen, mark .star,
    mark .thisWord, mark .dot, word "random", mark .leftParen, mark .rightParen, mark .slash,
    numeral 2147483648, mark .rightParen, lineEnd, mark .rightBrace, mark .rightBrace]

/-- The number of tokens of the module. -/
abbrev randomLength : Nat := 84

/-- The token that says what the module says at a place, and is otherwise the given one. -/
def spelled (s : Nat → Token) (i : Nat) : Token :=
  { s i with
    kind := (randomContents.getD i lineEnd).1
    lexeme := (randomContents.getD i lineEnd).2.1
    value := (randomContents.getD i lineEnd).2.2 }

@[simp] theorem index_spelled (s : Nat → Token) (i : Nat) : (spelled s i).index = (s i).index := by
  rfl

/-! ### The program over its tokens -/

/-- `seed(number)`. -/
def seedMethod (t : Nat → Token) : Function :=
  .mk (some (t 14)) (some [t 16]) [.expression (.assign (t 19) (.variable (t 21)))]

/-- The new seed, as `random()` computes it. -/
def nextExpr (t : Nat → Token) : Expr :=
  .binary (.grouping (.binary (.binary (.literal (t 32).value) (t 33) (.variable (t 34))) (t 35)
    (.literal (t 36).value))) (t 38) (.literal (t 39).value)

/-- What the seed stands for, as `random()` computes it. -/
def shownExpr (t : Nat → Token) : Expr :=
  .call (.get (.variable (t 42)) (t 44)) (t 49) [.variable (t 46), .literal (t 48).value]

/-- `random()`. -/
def randomMethod (t : Nat → Token) : Function :=
  .mk (some (t 25)) (some [])
    [.expression (.assign (t 29) (nextExpr t)), .ret (t 41) (some (shownExpr t))]

/-- The width of the range, as `inRange(min, max)` computes it. -/
def widthExpr (t : Nat → Token) : Expr :=
  .grouping (.binary (.binary (.variable (t 66)) (t 67) (.variable (t 68))) (t 69)
    (.literal (t 70).value))

/-- The draw that `inRange(min, max)` makes. -/
def drawExpr (t : Nat → Token) : Expr :=
  .call (.get (.this (t 73)) (t 75)) (t 77) []

/-- `inRange(min, max)`. -/
def inRangeMethod (t : Nat → Token) : Function :=
  .mk (some (t 53)) (some [t 55, t 57])
    [.ret (t 60) (some (.binary (.variable (t 61)) (t 62) (.call (.variable (t 63)) (t 80)
      [.binary (.binary (widthExpr t) (t 72) (drawExpr t)) (t 78) (.literal (t 79).value)])))]

/-- The methods of the class. -/
def randomMethods (t : Nat → Token) : List Function :=
  [seedMethod t, randomMethod t, inRangeMethod t]

/-- The module with random numbers. -/
def randomProgram (t : Nat → Token) : Program :=
  [.importModule (t 0) (.literal (t 1).value), .var (t 4) (some (.call (.variable (t 6)) (t 8) [])),
    .classDecl (t 11) none [] (randomMethods t)]

/-- The names of the module that are not global, with their distances. -/
def randomAddresses (t : Nat → Token) : List Address :=
  [⟨t 21, 0⟩, ⟨t 61, 0⟩, ⟨t 66, 0⟩, ⟨t 68, 0⟩, ⟨t 73, 1⟩]

/-! ### From the source to the program -/

variable (s : Nat → Token)

set_option maxRecDepth 10000 in
theorem parse_random (eof : Token) :
    Program.parse ((List.range randomLength).map (spelled s)) eof =
      .ok (randomProgram (spelled s)) := by
  rfl

theorem addresses_random :
    Program.addresses (randomProgram (spelled s)) = .ok (randomAddresses (spelled s)) := by
  have h6 : (spelled s 6).lexeme = "clock" := rfl
  have h16 : (spelled s 16).lexeme = "number" := rfl
  have h19 : (spelled s 19).lexeme = "_stdRandomSeed" := rfl
  have h21 : (spelled s 21).lexeme = "number" := rfl
  have h29 : (spelled s 29).lexeme = "_stdRandomSeed" := rfl
  have h34 : (spelled s 34).lexeme = "_stdRandomSeed" := rfl
  have h42 : (spelled s 42).lexeme = "Bitwise" := rfl
  have h46 : (spelled s 46).lexeme = "_stdRandomSeed" := rfl
  have h55 : (spelled s 55).lexeme = "min" := rfl
  have h57 : (spelled s 57).lexeme = "max" := rfl
  have h61 : (spelled s 61).lexeme = "min" := rfl
  have h63 : (spelled s 63).lexeme = "round" := rfl
  have h66 : (spelled s 66).lexeme = "max" := rfl
  have h68 : (spelled s 68).lexeme = "min" := rfl
  have h73 : (spelled s 73).lexeme = "this" := rfl
  generalize spelled s = t at *
  simp [Program.addresses, randomProgram, randomMethods, seedMethod, randomMethod, nextExpr,
    shownExpr, inRangeMethod, widthExpr, drawExpr, randomAddresses, resolveStmts, Stmt.resolve,
    Function.resolve, resolveFunctions, Expr.resolve, resolveExprs, Resolution.use,
    Resolution.declare, Resolution.enter, Resolution.leave, Resolution.distance?,
    Resolution.empty, Surroundings.none, List.findIdx?_cons, *]

/-- The token at a place of a scanned source. -/
def tokenAt (scan : Scan) (i : Nat) : Token :=
  scan.all.getD i scan.eof

variable {scan : Scan} (hcontents : scan.tokens.map Token.content = randomContents)

include hcontents in
theorem length_tokens : scan.tokens.length = randomLength := by
  rw [← List.length_map (f := Token.content), hcontents]
  rfl

include hcontents in
/-- A scan that says what the module says consists of tokens that are spelled like it. -/
theorem tokens_eq : scan.tokens = (List.range randomLength).map (spelled (tokenAt scan)) := by
  have hlength := length_tokens hcontents
  refine List.ext_getElem (by simpa using hlength) fun i hi _ ↦ ?_
  have htoken : tokenAt scan i = scan.tokens[i] := by
    simp [tokenAt, Scan.all, List.getElem?_append_left, hi]
  have hcontent : randomContents.getD i lineEnd = scan.tokens[i].content := by
    rw [← hcontents]
    simp [hi]
  rw [List.getElem_map, List.getElem_range, spelled, htoken, hcontent]
  rfl

include hcontents in
/-- **What a scan that says what the module says is loaded as.** -/
theorem resolve_of_contents (herrors : scan.errors = []) :
    (scan.program? >>= Program.resolve) =
      .ok ⟨randomProgram (spelled (tokenAt scan)), randomAddresses (spelled (tokenAt scan))⟩ := by
  have hprogram : scan.program? = .ok (randomProgram (spelled (tokenAt scan))) := by
    rw [Scan.program?, Scan.program, tokens_eq hcontents, parse_random, herrors]
    rfl
  simp only [hprogram, bind, Except.bind, Program.resolve, addresses_random]

theorem ofSource_ofList (index : Nat) (text : List Char) :
    Scan.ofSource index (String.ofList text) =
      Scan.ofPieces (.start index) (Piece.split text) := by
  rw [Scan.ofSource, String.toList_ofList]

set_option maxRecDepth 20000 in
theorem contents_randomSource :
    (Scan.ofSource 0 randomSource).tokens.map Token.content = randomContents ∧
      (Scan.ofSource 0 randomSource).errors = [] := by
  refine (congrArg (fun s : Scan ↦ s.tokens.map Token.content = randomContents ∧ s.errors = [])
    (ofSource_ofList 0 _)).mpr ?_
  decide +kernel

theorem map_content_shift (scan : Scan) (k : Nat) :
    (scan.shift k).tokens.map Token.content = scan.tokens.map Token.content := by
  simp [Scan.shift, Token.shift, Token.content, Function.comp_def]

theorem errors_shift (scan : Scan) (k : Nat) : (scan.shift k).errors = scan.errors :=
  rfl

theorem index_tokenAt {scan : Scan} {index i : Nat}
    (hall : scan.all.map Token.index = List.range' index scan.all.length)
    (hi : i < scan.tokens.length) : (tokenAt scan i).index = index + i := by
  have hi' : i < scan.all.length := by
    rw [Scan.all, List.length_append]
    omega
  have hindex := congrArg (·[i]?) hall
  simpa [tokenAt, hi'] using hindex

/-- **What the source of the random numbers is loaded as**, wherever the count of tokens stands. -/
theorem exists_tokens (index : Nat) :
    ∃ s : Nat → Token, (∀ i < randomLength, (s i).index = index + i) ∧
      index + randomLength < (Scan.ofSource index randomSource).nextIndex ∧
      ((Scan.ofSource index randomSource).program? >>= Program.resolve) =
        .ok ⟨randomProgram (spelled s), randomAddresses (spelled s)⟩ := by
  obtain ⟨hcontents, herrors⟩ := contents_randomSource
  rw [← map_content_shift _ index] at hcontents
  rw [← errors_shift _ index] at herrors
  have hshift := Scan.ofSource_add 0 index randomSource
  rw [Nat.zero_add] at hshift
  rw [← hshift] at hcontents herrors
  have hlength := length_tokens hcontents
  have hnext := Scan.nextIndex_eq index randomSource
  rw [Scan.all, List.length_append, hlength] at hnext
  refine ⟨_, fun i hi ↦ index_tokenAt (Scan.map_index_all index randomSource) (hlength.symm ▸ hi),
    ?_, resolve_of_contents hcontents herrors⟩
  rw [hnext]
  exact Nat.lt_succ_self _

end Library

end AliasScript
