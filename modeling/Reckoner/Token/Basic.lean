import Reckoner.Numeral
import Reckoner.Operator
import Reckoner.Span

/-! # Tokens

A token is a keyword, a punctuation mark, a number, an identifier, or a character that starts none
of these.  A line is a list of tokens and the empty span at its end.
-/
namespace Reckoner.Token

inductive Keyword where
  | letWord
  | explain
  | symbols
  | exit
  | quit
  | trueWord
  | falseWord
  | numberType
  | booleanType
deriving DecidableEq, Repr

namespace Keyword

def all : List Keyword :=
  [letWord, explain, symbols, exit, quit, trueWord, falseWord, numberType, booleanType]

def text : Keyword → String
  | letWord => "let"
  | explain => "explain"
  | symbols => "symbols"
  | exit => "exit"
  | quit => "quit"
  | trueWord => "true"
  | falseWord => "false"
  | numberType => "Number"
  | booleanType => "Boolean"

def ofText? (s : String) : Option Keyword :=
  all.find? (·.text == s)

theorem ofText?_eq_some_iff {s : String} {k : Keyword} : ofText? s = some k ↔ s = k.text := by
  constructor
  · intro h
    have := List.find?_some h
    simpa using (beq_iff_eq.mp this).symm
  · rintro rfl
    cases k <;> decide

end Keyword

inductive Mark where
  | hash
  | opening
  | closing
  | comma
  | colon
  | arrow
  | assign
  | equal
  | notEqual
  | less
  | lessOrEqual
  | greater
  | greaterOrEqual
  | plus
  | minus
  | star
  | slash
deriving DecidableEq, Repr

def Mark.text : Mark → String
  | hash => "#"
  | opening => "("
  | closing => ")"
  | comma => ","
  | colon => ":"
  | arrow => "->"
  | assign => "="
  | equal => "=="
  | notEqual => "!="
  | less => "<"
  | lessOrEqual => "<="
  | greater => ">"
  | greaterOrEqual => ">="
  | plus => "+"
  | minus => "-"
  | star => "*"
  | slash => "/"

inductive Kind where
  | keyword (word : Keyword)
  | mark (mark : Mark)
  | number (value : Float)
  | identifier (name : String)
  | invalid

def Kind.describe : Kind → String
  | keyword w => "`" ++ w.text ++ "`"
  | mark m => "`" ++ m.text ++ "`"
  | number x => "number `" ++ Numeral.text x ++ "`"
  | identifier n => "identifier `" ++ n ++ "`"
  | invalid => "invalid character"

end Reckoner.Token

namespace Reckoner

structure Token where
  kind : Token.Kind
  span : Span

def Token.endOfInput : String := "end of input"

/-- The tokens of a line, and the empty span at its end. -/
structure TokenLine where
  tokens : List Token
  stop : Span

end Reckoner
