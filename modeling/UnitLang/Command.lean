/-
# The command line

`pint FILE` parses a file.  It prints the tokens first if asked to, and the tree afterwards if
asked to; what it has to say about an error is a report on the error stream and the exit status.
This file says what is printed for which arguments and which file content; only reading and
printing are left to the program itself (`Main`).

The program also keeps a log, which goes to the error stream as far as the filter in `RUST_LOG` lets
it through.  The log is left out here: `Outcome.stderr` is what is printed beside it.  By default
only warnings and errors pass the filter, so nothing is logged about a file that can be read.
-/
import UnitLang.Compiler
import UnitLang.Report

namespace UnitLang.Command

/-! ## 1. Arguments -/

/-- What to do with a file. -/
structure Options where
  file : String
  showTokens : Bool
  showTree : Bool
deriving DecidableEq, Repr

/-- What a list of arguments asks for. -/
inductive Request where
  | help
  | version
  | process (o : Options)
  | misuse (reason : String)
deriving DecidableEq, Repr

/-- The arguments read so far, and whether a double dash has ended the options. -/
structure Given where
  file : Option String
  showTokens : Bool
  showTree : Bool
  filesOnly : Bool

/-- Why a word among the arguments is refused. -/
def unexpected (word : String) : Request := .misuse s!"unexpected argument '{word}' found"

/-- Why an option given twice is refused. -/
def repeated (option : String) : Request :=
  .misuse s!"the argument '{option}' cannot be used multiple times"

/-- The arguments with `word` as the file, which must be the only one and have a name. -/
def Given.withFile (g : Given) (word : String) : Except Request Given :=
  if word.isEmpty then
    .error (.misuse "a value is required for '<FILE>' but none was supplied")
  else if g.file.isSome then .error (unexpected word)
  else .ok { g with file := some word }

/-- Reads one argument.  Help and version answer at once, whatever follows. -/
def Given.read (g : Given) (word : String) : Except Request Given :=
  if g.filesOnly then g.withFile word
  else if word = "--" then .ok { g with filesOnly := true }
  else if word = "--help" then .error .help
  else if word = "--version" then .error .version
  else if word = "--tokens" then
    if g.showTokens then .error (repeated word) else .ok { g with showTokens := true }
  else if word = "--ast" then
    if g.showTree then .error (repeated word) else .ok { g with showTree := true }
  else
    match word.toList with
    | '-' :: 'h' :: _ => .error .help
    | '-' :: 'V' :: _ => .error .version
    | '-' :: _ :: _ => .error (unexpected word)
    | _ => g.withFile word

/-- What the arguments ask for. -/
def Request.ofArgs (args : List String) : Request :=
  match args.foldlM Given.read ⟨none, false, false, false⟩ with
  | .error request => request
  | .ok g =>
    match g.file with
    | some file => .process ⟨file, g.showTokens, g.showTree⟩
    | none => .misuse "the following required arguments were not provided:\n  <FILE>"

/-! ## 2. Answers -/

/-- The exit status and what is printed on the two streams. -/
structure Outcome where
  exit : Nat
  stdout : String
  stderr : String
deriving DecidableEq, Repr

/-- Why a file cannot be read as text. -/
inductive Unreadable where
  /-- There is no such file. -/
  | missing
  /-- It is a directory. -/
  | directory
  /-- The path goes on behind a file. -/
  | beyondFile
  /-- Its bytes are no text. -/
  | notText
  /-- The system refuses it with an error number. -/
  | refused (why : String) (number : Nat)
deriving DecidableEq, Repr

/-- The reason in words. -/
def Unreadable.reason : Unreadable → String
  | missing => "No such file or directory (os error 2)"
  | directory => "Is a directory (os error 21)"
  | beyondFile => "Not a directory (os error 20)"
  | notText => "stream did not contain valid UTF-8"
  | refused why number => s!"{why} (os error {number})"

/-- The text of `--version`. -/
def versionText : String := "pint 0.1.0\n"

/-- How the program is called. -/
def usageText : String := "Usage: pint [OPTIONS] <FILE>\n"

/-- The text of `--help`. -/
def helpText : String :=
  "Tokenizer and table-driven parser for the unit language\n\n" ++ usageText ++
  "\nArguments:\n" ++
  "  <FILE>  Source file to parse\n" ++
  "\nOptions:\n" ++
  "      --tokens   Print the token stream before parsing\n" ++
  "      --ast      Print the syntax tree after parsing\n" ++
  "  -h, --help     Print help\n" ++
  "  -V, --version  Print version\n"

/-- The exit status of a failure whose report cannot be laid out. -/
def crashStatus : Nat := 101

/-- A failure: what was printed before, and the report on the error.  Where there is no report the
program crashes, and what it prints then is not its own; the line that stands for it here is made
up, and nothing is said about it but the exit status. -/
def failure (printed : String) (e : Error) (source file : String) : Outcome :=
  match Report.render? e source file with
  | some report => ⟨1, printed, report⟩
  | none => ⟨crashStatus, printed, "Error: the report is too wide\n"⟩

/-- The token list as it is printed, a line for each token. -/
def tokenLines (tokens : List Token) : String :=
  String.join (tokens.map fun t => t.listing ++ "\n")

/-- Processes the text of a file, leaving the log out. -/
def process (o : Options) (source : String) : Outcome :=
  match if o.showTokens then (tokenize source).map tokenLines else .ok "" with
  | .error e => failure "" e source o.file
  | .ok printed =>
    match (Compiler.new.compile source).1 with
    | .error e => failure printed e source o.file
    | .ok tree =>
      let shown := if o.showTree then tree.outline.indented 0 ++ "\n" else ""
      ⟨0, printed ++ shown, ""⟩

/-- Answers a request; `read` gives the text of a file. -/
def answer (request : Request) (read : String → Except Unreadable String) : Outcome :=
  match request with
  | .help => ⟨0, helpText, ""⟩
  | .version => ⟨0, versionText, ""⟩
  | .misuse reason =>
    ⟨2, "", s!"error: {reason}\n\n{usageText}\nFor more information, try '--help'.\n"⟩
  | .process o =>
    match read o.file with
    | .error why => ⟨1, "", s!"Error: could not read {o.file}: {why.reason}\n"⟩
    | .ok source => process o source

/-- The program on a list of arguments, leaving the log out. -/
def run (args : List String) (read : String → Except Unreadable String) : Outcome :=
  answer (.ofArgs args) read

end UnitLang.Command
