import Reckoner.Diagnostic.Code
import Reckoner.Paint
import Reckoner.Span

/-! # Diagnostics

A diagnostic says what is wrong with a line, where, and what may help.  Its report shows the line
with carets under the span at fault, each character of the line counting as one column.
-/
namespace Reckoner

namespace Diagnostic

inductive Severity where
  | error
  | warning
  | note
deriving DecidableEq, Repr

def Severity.text : Severity → String
  | error => "error"
  | warning => "warning"
  | note => "note"

def Severity.style : Severity → Style
  | error => .error
  | warning => .warning
  | note => .note

end Diagnostic

structure Diagnostic where
  code : Diagnostic.Code
  severity : Diagnostic.Severity
  message : String
  /-- The line and the span of it at fault, if that is known. -/
  source : Option (String × Span)
  notes : List String
  suggestions : List String
deriving DecidableEq, Repr

namespace Diagnostic

def ofMessage (code : Code) (message : String) : Diagnostic :=
  ⟨code, .error, message, none, [], []⟩

def isError (d : Diagnostic) : Bool :=
  d.severity == .error

def headline (d : Diagnostic) : String :=
  d.severity.text ++ "[" ++ d.code.text ++ "]: " ++ d.message

/-- How many characters lie wholly before a byte offset. -/
def columnOf : List Char → Nat → Nat
  | [], _ => 0
  | c :: cs, offset => if c.utf8Size ≤ offset then columnOf cs (offset - c.utf8Size) + 1 else 0

/-- The number of columns that carets mark for a span: at least one. -/
def caretCount (line : List Char) (span : Span) : Nat :=
  max (columnOf line span.stop - columnOf line span.start) 1

def row (c : Char) (count : Nat) : String :=
  String.ofList (List.replicate count c)

def snippet (line : String) (span : Span) : Painted :=
  [.styled .gutter "  | ", .plain (line ++ "\n"), .styled .gutter "  | ",
    .plain (row ' ' (columnOf line.toList span.start)),
    .styled .error (row '^' (caretCount line.toList span)), .plain "\n"]

def remark (style : Style) (kind text : String) : Painted :=
  [.plain "  = ", .styled style kind, .plain (": " ++ text ++ "\n")]

def report (d : Diagnostic) : Painted :=
  [.styled d.severity.style d.severity.text, .styled .strong ("[" ++ d.code.text ++ "]"),
    .plain (": " ++ d.message ++ "\n")] ++
  (d.source.elim [] fun (line, span) => snippet line span) ++
  d.notes.flatMap (remark .strong "note") ++
  d.suggestions.flatMap (remark .help "help")

end Diagnostic

end Reckoner
