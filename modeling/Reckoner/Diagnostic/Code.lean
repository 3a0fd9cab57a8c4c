/-! # Diagnostic codes

Every failure has a code: the letter `E`, a digit for the phase that found it, and three more
digits.
-/
namespace Reckoner.Diagnostic

inductive Phase where
  | parsing
  | typing
  | evaluation
deriving DecidableEq, Repr

inductive Code where
  | unexpectedToken
  | expectedExpression
  | unclosedDelimiter
  | expectedIdentifier
  | expectedType
  | invalidCharacter
  | invalidNumber
  | trailingInput
  | untypedSymbol
  | untypedFunction
  | untypedArity
  | untypedOperands
  | typingTooDeep
  | unknownSymbol
  | unknownFunction
  | wrongArity
  | wrongOperands
  | evaluationTooDeep
  | nativeFailed
  | unboundArgument
deriving DecidableEq, Repr

namespace Code

def all : List Code :=
  [unexpectedToken, expectedExpression, unclosedDelimiter, expectedIdentifier, expectedType,
    invalidCharacter, invalidNumber, trailingInput, untypedSymbol, untypedFunction, untypedArity,
    untypedOperands, typingTooDeep, unknownSymbol, unknownFunction, wrongArity, wrongOperands,
    evaluationTooDeep, nativeFailed, unboundArgument]

theorem mem_all (c : Code) : c ∈ all := by
  cases c <;> decide

def text : Code → String
  | unexpectedToken => "E1001"
  | expectedExpression => "E1002"
  | unclosedDelimiter => "E1003"
  | expectedIdentifier => "E1004"
  | expectedType => "E1005"
  | invalidCharacter => "E1006"
  | invalidNumber => "E1007"
  | trailingInput => "E1008"
  | untypedSymbol => "E2001"
  | untypedFunction => "E2002"
  | untypedArity => "E2003"
  | untypedOperands => "E2004"
  | typingTooDeep => "E2005"
  | unknownSymbol => "E3001"
  | unknownFunction => "E3002"
  | wrongArity => "E3003"
  | wrongOperands => "E3004"
  | evaluationTooDeep => "E3005"
  | nativeFailed => "E3006"
  | unboundArgument => "E3007"

def description : Code → String
  | unexpectedToken => "unexpected token"
  | expectedExpression => "expected expression"
  | unclosedDelimiter => "unclosed delimiter"
  | expectedIdentifier => "expected identifier"
  | expectedType => "expected type name"
  | invalidCharacter => "invalid character"
  | invalidNumber => "invalid number literal"
  | trailingInput => "unexpected input after command"
  | untypedSymbol | unknownSymbol => "unknown symbol"
  | untypedFunction | unknownFunction => "unknown function"
  | untypedArity | wrongArity => "wrong number of arguments"
  | untypedOperands | wrongOperands => "incompatible types"
  | typingTooDeep => "type checking nested too deeply"
  | evaluationTooDeep => "recursion limit exceeded"
  | nativeFailed => "native function failed"
  | unboundArgument => "native argument not bound"

def phase : Code → Phase
  | unexpectedToken | expectedExpression | unclosedDelimiter | expectedIdentifier | expectedType
  | invalidCharacter | invalidNumber | trailingInput => .parsing
  | untypedSymbol | untypedFunction | untypedArity | untypedOperands | typingTooDeep => .typing
  | unknownSymbol | unknownFunction | wrongArity | wrongOperands | evaluationTooDeep
  | nativeFailed | unboundArgument => .evaluation

/-- Reads the text of a code, with a capital or a small letter. -/
def ofText? (s : String) : Option Code :=
  let upper := s.toList.map fun c => if c = 'e' then 'E' else c
  all.find? (·.text.toList == upper)

theorem ofText?_text (c : Code) : ofText? c.text = some c := by
  cases c <;> decide

end Code

end Reckoner.Diagnostic
