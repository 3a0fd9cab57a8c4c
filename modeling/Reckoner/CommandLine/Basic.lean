import Reckoner.CommandLine.Settings

/-! # The command line

The program reads lines from the console, from a file or from its arguments.  All it does is here
as functions of what it is given; only reading and writing is left to its outer layer.
-/
namespace Reckoner.CommandLine

inductive Action where
  /-- Read lines from the console. -/
  | converse
  /-- Execute the lines of a file. -/
  | runFile (path : String)
  /-- Execute the arguments as lines. -/
  | runLines (lines : List String)
  | help
  | version
  /-- Show how a command is used whose arguments are missing. -/
  | usage (text : String)
  | unknown (word : String)
deriving DecidableEq, Repr

/-- What the arguments that are not flags ask for. -/
def Action.ofArguments : List String → Action
  | [] => converse
  | word :: args =>
    if word = "repl" then converse
    else if word = "run" then
      match args with
      | [] => usage "Usage: calx run <file>"
      | path :: _ => runFile path
    else if word = "eval" then
      match args with
      | [] => usage "Usage: calx eval <line>..."
      | lines => runLines lines
    else if word = "help" ∨ word = "--help" ∨ word = "-h" then help
    else if word = "version" ∨ word = "--version" ∨ word = "-V" then version
    else unknown word

def helpLines : List String :=
  ["Calx - a small typed expression language",
    "",
    "Usage: calx [command] [options]",
    "",
    "Commands:",
    "  repl               Interactive console (default)",
    "  run <file>         Execute every line of a file",
    "  eval <line>...     Execute each argument as one line",
    "  help               Show this message",
    "  version            Show version information",
    "",
    "Options:",
    "  --no-color         Disable colored output (also NO_COLOR=1)",
    "  --color            Force colored output",
    "  --max-depth=<n>    Nesting limit for checking and evaluation (default 512)",
    "",
    "Console commands:",
    "  let <name> = <expr>    Bind a name",
    "  explain <expr>         Show the expression tree",
    "  symbols                List top-level bindings",
    "  exit | quit            Leave the console",
    "",
    "Built-in functions: " ++ ", ".intercalate Prelude.names,
    "",
    "Set RUST_LOG (e.g. RUST_LOG=calx_eval=debug) for tracing output."]

def helpText : String :=
  String.join (helpLines.map (· ++ "\n"))

def versionText : String := "calx 0.1.0\n"

def prompt : Painted :=
  [.styled .prompt "> "]

inductive ReadError where
  | missing
  /-- A name in a path stands for a file, and more names follow it. -/
  | notDirectory
  | isDirectory
  | nameTooLong
  /-- The bytes encode no text. -/
  | notUnicode
  /-- Anything else, with the system's words and its number for it. -/
  | other (text : String) (number : Nat)
deriving DecidableEq, Repr

def systemError (text : String) (number : Nat) : String :=
  text ++ " (os error " ++ toString number ++ ")"

def ReadError.text : ReadError → String
  | missing => systemError "No such file or directory" 2
  | notDirectory => systemError "Not a directory" 20
  | isDirectory => systemError "Is a directory" 21
  | nameTooLong => systemError "File name too long" 36
  | notUnicode => "stream did not contain valid UTF-8"
  | other text number => systemError text number

def decode (bytes : ByteArray) : Except ReadError String :=
  match String.fromUTF8? bytes with
  | some s => .ok s
  | none => .error .notUnicode

/-- The bytes of the lines of an input, each with the line feed that ends it, where `line` holds
the bytes read since the last line feed, latest first. -/
def byteLinesFrom (line : List UInt8) : List UInt8 → List (List UInt8)
  | [] => if line.isEmpty then [] else [line.reverse]
  | b :: rest =>
    if b = 10 then (b :: line).reverse :: byteLinesFrom [] rest
    else byteLinesFrom (b :: line) rest

/-- The lines of an input, each with its line end. -/
def inputLines (input : ByteArray) : List (Except ReadError String) :=
  (byteLinesFrom [] input.data.toList).map fun line => decode ⟨line.toArray⟩

/-- What a run of the program leaves behind. -/
structure Outcome where
  code : Nat
  out : String
  err : String
deriving DecidableEq, Repr

def inputError (e : ReadError) : String :=
  "error: failed to read input: " ++ e.text ++ "\n"

def fileError (path : String) (e : ReadError) : String :=
  "error: cannot read '" ++ path ++ "': " ++ e.text ++ "\n"

/-- Takes a line read from the console without its line end. -/
def converseStep (limits : Limits) (s : Session) (line : String) : Session × Painted × Flow :=
  s.step limits (Text.trimEnd Text.isLineEnd line)

/-- Reads lines until there are none, one cannot be read, or one leaves the session. -/
def converse (limits : Limits) (s : Session) :
    List (Except ReadError String) → Painted × Option ReadError
  | [] => (prompt, none)
  | .error e :: _ => (prompt, some e)
  | .ok line :: rest =>
    match converseStep limits s line with
    | (_, shown, .exit) => (prompt ++ shown, none)
    | (s, shown, .continue) =>
      let (more, error) := converse limits s rest
      (prompt ++ shown ++ more, error)

def execute (settings : Settings) (colors : Bool) (lines : List String) : Outcome :=
  let (s, shown) := Session.fresh.run settings.limits lines
  ⟨s.exitCode, shown.render colors, ""⟩

def converseAll (settings : Settings) (colors : Bool) (input : ByteArray) : Outcome :=
  let (shown, error) := converse settings.limits .fresh (inputLines input)
  ⟨if error.isSome then 1 else 0, shown.render colors, (error.map inputError).getD ""⟩

def executeFile (settings : Settings) (colors : Bool) (path : String)
    (content : Except ReadError ByteArray) : Outcome :=
  match content.bind decode with
  | .error e => ⟨1, "", fileError path e⟩
  | .ok text => execute settings colors (Text.lines text)

/-- What a program is given: its arguments, its environment, its input and its files. -/
structure World where
  args : List String
  noColor : Option String
  terminal : Bool
  input : ByteArray
  file : String → Except ReadError ByteArray

def run (w : World) : Outcome :=
  match Settings.read w.noColor w.args with
  | .error bad => ⟨2, "", "error: " ++ bad.message ++ "\n"⟩
  | .ok (settings, args) =>
    let colors := settings.color.enabled w.terminal
    match Action.ofArguments args with
    | .converse => converseAll settings colors w.input
    | .runFile path => executeFile settings colors path (w.file path)
    | .runLines lines => execute settings colors lines
    | .help => ⟨0, helpText, ""⟩
    | .version => ⟨0, versionText, ""⟩
    | .usage text => ⟨2, "", text ++ "\n"⟩
    | .unknown word => ⟨2, helpText, "Unknown command: " ++ word ++ "\n\n"⟩

end Reckoner.CommandLine
