import Reckoner.Expr.Basic
import Reckoner.ParseError

/-! # Parsing expressions

The grammar, from the loosest form to the tightest:

```text
expression := function | equality
function   := '(' [parameter (',' parameter)*] ')' '->' expression
parameter  := IDENTIFIER ':' type
type       := 'Number' | 'Boolean'
equality   := comparison (('==' | '!=') comparison)*
comparison := sum (('<' | '<=' | '>' | '>=') sum)*
sum        := product (('+' | '-') product)*
product    := negation (('*' | '/') negation)*
negation   := '-' negation | primary
primary    := NUMBER | 'true' | 'false' | '#' | IDENTIFIER
            | IDENTIFIER '(' [expression (',' expression)*] ')' | '(' expression ')'
```

A parser takes the tokens that are left and gives a result with the tokens after it.  Each form is
a parser built from the parser of the next tighter form; the expressions inside parentheses,
argument lists and function bodies come from a parser `nested`.  A parser that repeats something
takes a `bound` on how often; the number of tokens left is always enough.  An expression inside
another one starts after at least one token, so that number also bounds how deep they nest.
-/
namespace Reckoner

/-- Takes the tokens that are left, and fails or gives a result and the tokens after it. -/
abbrev Parser (α : Type) := List Token → Except ParseError.Failure (α × List Token)

namespace Expr

open ParseError (fail)

def parseIdentifier : Parser String
  | ⟨.identifier n, _⟩ :: rest => .ok (n, rest)
  | ts => fail .expectedIdentifier ts

def parseType : Parser Ty
  | ⟨.keyword .numberType, _⟩ :: rest => .ok (.number, rest)
  | ⟨.keyword .booleanType, _⟩ :: rest => .ok (.boolean, rest)
  | ts => fail .expectedType ts

def parseClosing (opening : Span) : Parser Unit
  | ⟨.mark .closing, _⟩ :: rest => .ok ((), rest)
  | ts => fail (.unclosedDelimiter opening) ts

def parseColon : Parser Unit
  | ⟨.mark .colon, _⟩ :: rest => .ok ((), rest)
  | ts => fail (.unexpectedToken "`:`") ts

def parseArrow : Parser Unit
  | ⟨.mark .arrow, _⟩ :: rest => .ok ((), rest)
  | ts => fail (.unexpectedToken "`->`") ts

def parseParameter : Parser Parameter := fun ts => do
  let (name, ts) ← parseIdentifier ts
  let ((), ts) ← parseColon ts
  let (ty, ts) ← parseType ts
  return (⟨name, ty⟩, ts)

/-- One item or more with commas between them, at most `bound` commas. -/
def parseItems {α : Type} (item : Parser α) : Nat → Parser (List α)
  | 0, ts => do
    let (a, ts) ← item ts
    return ([a], ts)
  | bound + 1, ts => do
    let (a, ts) ← item ts
    match ts with
    | ⟨.mark .comma, _⟩ :: ts =>
      let (as, ts) ← parseItems item bound ts
      return (a :: as, ts)
    | ts => return ([a], ts)

def parseList {α : Type} (bound : Nat) (item : Parser α) (opening : Span) : Parser (List α)
  | ⟨.mark .closing, _⟩ :: rest => .ok ([], rest)
  | ts => do
    let (as, ts) ← parseItems item bound ts
    let ((), ts) ← parseClosing opening ts
    return (as, ts)

/-- A function literal, after the parenthesis at `opening`. -/
def parseFunction (bound : Nat) (nested : Parser Expr) (opening : Span) : Parser Expr :=
    fun ts => do
  let (params, ts) ← parseList bound parseParameter opening ts
  let ((), ts) ← parseArrow ts
  let (body, ts) ← nested ts
  return (.function 0 params body, ts)

/-- A literal, a name, a call or an expression in parentheses. -/
def parsePrimary (bound : Nat) (nested : Parser Expr) : Parser Expr
  | ⟨.number x, _⟩ :: rest => .ok (.number x, rest)
  | ⟨.keyword .trueWord, _⟩ :: rest => .ok (.boolean true, rest)
  | ⟨.keyword .falseWord, _⟩ :: rest => .ok (.boolean false, rest)
  | ⟨.mark .hash, _⟩ :: rest => .ok (.symbol lastResult, rest)
  | ⟨.identifier f, _⟩ :: ⟨.mark .opening, opening⟩ :: rest => do
    let (args, rest) ← parseList bound nested opening rest
    return (.call f args, rest)
  | ⟨.identifier n, _⟩ :: rest => .ok (.symbol n, rest)
  | ⟨.mark .opening, opening⟩ :: rest => do
    let (e, rest) ← nested rest
    let ((), rest) ← parseClosing opening rest
    return (e, rest)
  | ts => fail .expectedExpression ts

/-- The negative of an operand: a number literal is negated itself, anything else is subtracted
from zero. -/
def negate : Expr → Expr
  | .number x => .number (-x)
  | e => .binary .subtract (.number 0.0) e

def parseNegation (primary : Parser Expr) : Parser Expr
  | ⟨.mark .minus, _⟩ :: rest => do
    let (e, rest) ← parseNegation primary rest
    return (negate e, rest)
  | ts => primary ts

/-- The operators of one binding strength that follow `left`, each with its right operand, at most
`bound` of them. -/
def parseOperators (operator? : Token.Mark → Option Operator) (operand : Parser Expr) :
    Nat → Expr → Parser Expr
  | bound + 1, left, ⟨.mark m, span⟩ :: rest =>
    match operator? m with
    | some op => do
      let (right, rest) ← operand rest
      parseOperators operator? operand bound (.binary op left right) rest
    | none => .ok (left, ⟨.mark m, span⟩ :: rest)
  | _, left, ts => .ok (left, ts)

/-- Operands with the operators of one binding strength between them, grouped from the left. -/
def parseLevel (bound : Nat) (operator? : Token.Mark → Option Operator) (operand : Parser Expr) :
    Parser Expr := fun ts => do
  let (left, ts) ← operand ts
  parseOperators operator? operand bound left ts

def productOperator? : Token.Mark → Option Operator
  | .star => some .multiply
  | .slash => some .divide
  | _ => none

def sumOperator? : Token.Mark → Option Operator
  | .plus => some .add
  | .minus => some .subtract
  | _ => none

def comparisonOperator? : Token.Mark → Option Operator
  | .less => some .less
  | .lessOrEqual => some .lessOrEqual
  | .greater => some .greater
  | .greaterOrEqual => some .greaterOrEqual
  | _ => none

def equalityOperator? : Token.Mark → Option Operator
  | .equal => some .equal
  | .notEqual => some .notEqual
  | _ => none

/-- An expression that is not a function literal. -/
def parseEquality (bound : Nat) (nested : Parser Expr) : Parser Expr :=
  parseLevel bound equalityOperator? <| parseLevel bound comparisonOperator? <|
    parseLevel bound sumOperator? <| parseLevel bound productOperator? <|
    parseNegation <| parsePrimary bound nested

/-- Whether the tokens after a parenthesis make it start a function literal: `) ->` or a name and a
colon. -/
def startsFunction : List Token → Bool
  | ⟨.mark .closing, _⟩ :: ⟨.mark .arrow, _⟩ :: _ => true
  | ⟨.identifier _, _⟩ :: ⟨.mark .colon, _⟩ :: _ => true
  | _ => false

/-- An expression whose nested expressions `nested` parses. -/
def parseWith (bound : Nat) (nested : Parser Expr) : Parser Expr
  | ⟨.mark .opening, opening⟩ :: rest =>
    if startsFunction rest then parseFunction bound nested opening rest
    else parseEquality bound nested (⟨.mark .opening, opening⟩ :: rest)
  | ts => parseEquality bound nested ts

/-- An expression of fewer than `depth` tokens.  A nested one has at least one token fewer. -/
def parseWithin : Nat → Parser Expr
  | 0 => fail .expectedExpression
  | depth + 1 => parseWith depth (parseWithin depth)

def parse : Parser Expr := fun ts =>
  parseWithin (ts.length + 1) ts

end Expr

end Reckoner
