import Reckoner.Decimal.Basic
import Reckoner.Session.Console

/-! # Settings

Settings come from the arguments of the command line and from the environment.
-/
namespace Reckoner

structure Settings where
  color : ColorMode := .auto
  /-- How deep checks and evaluations may nest. -/
  maxDepth : Nat := Typing.defaultLimit
deriving DecidableEq, Repr

namespace Settings

def limits (s : Settings) : Limits :=
  .both s.maxDepth

def largestDepth : Nat := 0xFFFFFFFFFFFFFFFF

/-- A depth: digits, perhaps after a plus sign, that spell a number from one to the largest. -/
def readDepth? (text : List Char) : Option Nat :=
  let digits :=
    match text with
    | '+' :: rest => rest
    | rest => rest
  let depth := Decimal.readDigits 0 digits
  if !digits.isEmpty && digits.all Char.isDigit && 0 < depth && depth ≤ largestDepth then some depth
  else none

def depthFlag : String := "--max-depth="

structure BadDepth where
  text : String
deriving DecidableEq, Repr

def BadDepth.message (b : BadDepth) : String :=
  "invalid value for --max-depth: `" ++ b.text ++ "`"

/-- Settings changed by the flags among some arguments, and the other arguments in order. -/
def readArguments (s : Settings) : List String → Except BadDepth (Settings × List String)
  | [] => .ok (s, [])
  | arg :: args =>
    if arg = "--no-color" then readArguments { s with color := .never } args
    else if arg = "--color" then readArguments { s with color := .always } args
    else
      match depthFlag.toList.isPrefixOf? arg.toList with
      | some text =>
        match readDepth? text with
        | some depth => readArguments { s with maxDepth := depth } args
        | none => .error ⟨String.ofList text⟩
      | none => do
        let (s, rest) ← readArguments s args
        return (s, arg :: rest)

/-- The settings that the environment asks for: a non-empty `NO_COLOR` turns colours off. -/
def ofEnvironment (noColor : Option String) : Settings :=
  if noColor.any (!·.isEmpty) then { color := .never } else {}

/-- The settings of a command line, and the arguments that are not flags. -/
def read (noColor : Option String) (args : List String) :
    Except BadDepth (Settings × List String) :=
  (ofEnvironment noColor).readArguments args

end Settings

end Reckoner
