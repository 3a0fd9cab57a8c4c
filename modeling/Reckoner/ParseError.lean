import Reckoner.Diagnostic.Basic
import Reckoner.Token.Basic

/-! # Parse errors

Parsing stops at the first token that cannot go on.  A failure keeps the tokens from there on; the
error made of it keeps that token and its span, or the span at the end of the line.
-/
namespace Reckoner

namespace ParseError

inductive Cause where
  /-- A certain token should stand here. -/
  | unexpectedToken (expected : String)
  /-- An expression should start here. -/
  | expectedExpression
  /-- The parenthesis at a span should be closed here. -/
  | unclosedDelimiter (opening : Span)
  | expectedIdentifier
  | expectedType
  /-- No token starts with this character. -/
  | invalidCharacter
  /-- The command ended before this token. -/
  | trailingInput
deriving DecidableEq, Repr

/-- A cause, and the tokens that are left from the offending one on. -/
structure Failure where
  cause : Cause
  rest : List Token

/-- Fails at the first of the remaining tokens.  Where that is an invalid character, this is the
cause, whatever else was expected. -/
def fail {α : Type} (cause : Cause) (rest : List Token) : Except Failure α :=
  match rest with
  | ⟨.invalid, _⟩ :: _ => .error ⟨.invalidCharacter, rest⟩
  | _ => .error ⟨cause, rest⟩

end ParseError

/-- A line that cannot be parsed: why, what was found, and where. -/
structure ParseError where
  cause : ParseError.Cause
  /-- The offending token, or nothing at the end of the line. -/
  found : Option Token.Kind
  span : Span

namespace ParseError

/-- The error of a failure in a line that ends at `stop`. -/
def ofFailure (stop : Span) (failure : Failure) : ParseError :=
  match failure.rest with
  | [] => ⟨failure.cause, none, stop⟩
  | t :: _ => ⟨failure.cause, some t.kind, t.span⟩

def offset (e : ParseError) : Nat :=
  e.span.start

def code (e : ParseError) : Diagnostic.Code :=
  match e.cause with
  | .unexpectedToken _ => .unexpectedToken
  | .expectedExpression => .expectedExpression
  | .unclosedDelimiter _ => .unclosedDelimiter
  | .expectedIdentifier => .expectedIdentifier
  | .expectedType => .expectedType
  | .invalidCharacter => .invalidCharacter
  | .trailingInput => .trailingInput

def foundText (e : ParseError) : String :=
  e.found.elim Token.endOfInput Token.Kind.describe

def message (e : ParseError) : String :=
  match e.cause with
  | .unexpectedToken expected => "expected " ++ expected ++ ", found " ++ e.foundText
  | .expectedExpression => "expected expression, found " ++ e.foundText
  | .unclosedDelimiter _ => "unclosed `(`: expected `)`, found " ++ e.foundText
  | .expectedIdentifier => "expected identifier, found " ++ e.foundText
  | .expectedType => "expected type, found " ++ e.foundText
  | .invalidCharacter => "invalid character"
  | .trailingInput => "unexpected " ++ e.foundText ++ " after complete command"

def notes (e : ParseError) : List String :=
  match e.cause with
  | .unclosedDelimiter opening =>
    ["the `(` at offset " ++ toString opening.start ++ " is never closed"]
  | _ => []

def suggestions (e : ParseError) : List String :=
  match e.cause with
  | .expectedType => ["parameter types are `Number` or `Boolean`"]
  | _ => []

def diagnostic (line : String) (e : ParseError) : Diagnostic :=
  ⟨e.code, .error, e.message, some (line, e.span), e.notes, e.suggestions⟩

end ParseError

end Reckoner
