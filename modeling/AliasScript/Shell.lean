import AliasScript.Session

/-!
# The command line

The program runs a script with arguments, or without a script a prompt that runs each line it reads.
This module says what it writes and how it exits, given the files and the lines that it finds.
-/

namespace AliasScript

/-- What the command line asks for. -/
inductive Request where
  | script (path : String) (arguments : List String)
  | prompt (arguments : List String)
  | version
  | help
  /-- The command line cannot be understood. -/
  | misuse
deriving DecidableEq, Repr

namespace Request

/-- What an option letter asks for. -/
def ofLetter? : Char → Option Request
  | 'V' => some version
  | 'h' => some help
  | _ => none

/-- What an option asks for. Of several letters the first one counts. -/
def ofOption? (text : String) : Option Request :=
  match text.toList with
  | '-' :: '-' :: _ =>
    match text with
    | "--version" => some version
    | "--help" => some help
    | _ => none
  | '-' :: letter :: _ => ofLetter? letter
  | _ => none

/-- The argument is written like an option. A single dash is not. -/
def looksLikeOption (text : String) : Bool :=
  match text.toList with
  | '-' :: _ :: _ => true
  | _ => false

/-- A known option is given a value, which it does not take. -/
def hasNeedlessValue (text : String) : Bool :=
  text.startsWith "--version=" || text.startsWith "--help="

/-- All letters of a short option are known. -/
def isKnown (text : String) : Bool :=
  match text.toList with
  | '-' :: '-' :: _ => true
  | '-' :: letters => letters.all fun c ↦ (ofLetter? c).isSome
  | _ => false

/-- The request when all arguments are taken as they are. -/
def ofLiterals : List String → Request
  | [] => prompt []
  | path :: arguments => script path arguments

/-- The request behind the name of the script. The first argument may still be an option or two
dashes, which only end the options; from then on everything is an argument. -/
def ofArguments (path : String) : List String → Request
  | [] => script path []
  | "--" :: rest => script path rest
  | first :: rest =>
    if hasNeedlessValue first then misuse
    else if isKnown first then (ofOption? first).getD (script path (first :: rest))
    else script path (first :: rest)

/-- What the command line asks for. -/
def parse : List String → Request
  | [] => prompt []
  | "--" :: rest => ofLiterals rest
  | first :: rest =>
    if looksLikeOption first then (ofOption? first).getD misuse else ofArguments first rest

end Request

/-- What the program did. -/
structure Exit where
  code : Nat
  output : String
  errors : String
  /-- The world as the program left it. -/
  world : World

namespace Shell

/-- The exit code after a command line that cannot be understood. -/
def misuseCode : Nat := 64

/-- The exit code if the script cannot be read. -/
def unreadableCode : Nat := 65

/-- The exit code after a script that was not run. -/
def rejectedCode : Nat := 70

/-- The exit code after a script that was aborted. -/
def abortedCode : Nat := 75

/-- What the program answers when it is asked for its version. -/
def versionText : String :=
  "reflox 0.1.0\n"

/-- How the program is called. -/
def usageText : String :=
  "Usage: reflox [SCRIPT] [ARGS]...\n"

/-- Why a script cannot be read. -/
def reason : PathError → String
  | .missing => "No such file or directory (os error 2)"
  | .directory => "Is a directory (os error 21)"
  | .notDirectory => "Not a directory (os error 20)"
  | .nameTooLong => "File name too long (os error 36)"
  | .badName => "file name contained an unexpected NUL byte"

/-- The text of a script, or why there is none. -/
def readScript (world : World) (path : String) : Except String String × World :=
  match world.readFile path with
  | (.error e, world) => (.error (reason e), world)
  | (.ok contents, world) =>
    match String.fromUTF8? contents with
    | some text => (.ok text, world)
    | none => (.error "stream did not contain valid UTF-8", world)

/-- What is reported of the end of a source. -/
def report : Outcome → Option String
  | .completed => none
  | .rejected errors => some (Diagnostic.renderAll errors)
  | .aborted f => some f.render
  | .breached _ => some "Internal error."
  | .exhausted => some "Out of budget."

/-- The exit code after a script. -/
def exitCode : Outcome → Nat
  | .completed => 0
  | .rejected _ => rejectedCode
  | _ => abortedCode

/-- A report with its line end. -/
def reportLine (outcome : Outcome) : String :=
  (report outcome).elim "" (· ++ "\n")

/-- Runs a script. -/
def runScript (budget : Nat) (world : World) (path : String) (arguments : List String) : Exit :=
  match readScript world path with
  | (.error why, world) =>
    ⟨unreadableCode, "", "Could not read '" ++ path ++ "': " ++ why ++ "\n", world⟩
  | (.ok source, world) =>
    let (outcome, m) := (Machine.initial arguments world false).run budget source
    ⟨exitCode outcome, m.world.output, reportLine outcome, m.world⟩

/-- A line of the prompt is a whole source, so it gets a line end if it has none. -/
def entry (line : String) : String :=
  if line.endsWith "\n" then line else line ++ "\n"

/-- Runs the lines of the prompt, up to the end or to a line that is no text. A source may read
lines itself, so that fewer are left for the prompt. -/
def promptFrom (budget : Nat) : Nat → Machine → String → Machine × String
  | 0, m, errors => (m, errors)
  | n + 1, m, errors =>
    let m := { m with world := m.world.write "> " }
    match m.world.readLine with
    | (some (some line), world) =>
      let (outcome, m) := { m with world := world }.run budget (entry line)
      promptFrom budget n m (errors ++ reportLine outcome)
    | (_, world) => ({ m with world := world }, errors)

/-- Runs the prompt. -/
def runPrompt (budget : Nat) (world : World) (arguments : List String) : Exit :=
  let (m, errors) :=
    promptFrom budget (world.input.length + 1) (Machine.initial arguments world false) ""
  ⟨0, m.world.output, errors, m.world⟩

/-- Does what the command line asks for. -/
def run (budget : Nat) (world : World) (arguments : List String) : Exit :=
  match Request.parse arguments with
  | .script path arguments => runScript budget world path arguments
  | .prompt arguments => runPrompt budget world arguments
  | .version => ⟨0, versionText, "", world⟩
  | .help => ⟨0, usageText, "", world⟩
  | .misuse => ⟨misuseCode, "", usageText, world⟩

end Shell

end AliasScript
