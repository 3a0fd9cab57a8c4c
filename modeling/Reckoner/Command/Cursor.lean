import Reckoner.Command.Parser
import Reckoner.Token.Cursor

/-! # Reading commands with a cursor

The grammar with a cursor that goes along the items of a line.  Whether a loop goes on, and which form comes
next, is decided by the item at the cursor; only where a function literal could start it is decided by the
two items after it.  A loop or a nested form takes a `bound` on how often, and gets stuck at that bound.
-/
namespace Reckoner.Reading

def identifier : Reading String := do
  match (← current).kind with
  | some (.identifier n) =>
    let _ ← advance
    return n
  | _ => failHere .expectedIdentifier

def typeName : Reading Ty := do
  match (← current).kind with
  | some (.keyword .numberType) =>
    let _ ← advance
    return .number
  | some (.keyword .booleanType) =>
    let _ ← advance
    return .boolean
  | _ => failHere .expectedType

def parameter : Reading Parameter := do
  let name ← identifier
  let _ ← expect .colon "`:`"
  let ty ← typeName
  return ⟨name, ty⟩

/-- The parenthesis that closes the one at `opening`. -/
def closing (opening : Span) : Reading Unit := do
  if ← eat .closing then return ()
  else failHere (.unclosedDelimiter opening)

/-- One item or more with commas between them. -/
def separated {α : Type} (item : Reading α) : Nat → Nat → Reading (List α)
  | 0, _ => Stateful.stuck
  | bound + 1, since => do
    note (.round since)
    let here ← position
    let a ← item
    if ← eat .comma then
      let as ← separated item bound here
      return a :: as
    else return [a]

/-- The items of a list in parentheses, from the opening one to the closing one; there may be none. -/
def list {α : Type} (bound : Nat) (item : Nat → Reading α) : Reading (List α) := do
  let here ← position
  let opening ← advance
  let as ← do
    if ← check .closing then pure []
    else separated (item here) bound here
  closing opening.span
  return as

/-- Something nested in what started at `since`. -/
def descend {α : Type} (nested : Reading α) (since : Nat) : Reading α := do
  note (.descent since)
  nested

def function (bound : Nat) (nested : Reading Expr) : Reading Expr := do
  let here ← position
  let params ← list bound fun _ => parameter
  let _ ← expect .arrow "`->`"
  let body ← descend nested here
  return .function 0 params body

/-- A call, after the name that is called. -/
def call (bound : Nat) (nested : Reading Expr) (callee : String) : Reading Expr := do
  let args ← list bound (descend nested)
  return .call callee args

def primary (bound : Nat) (nested : Reading Expr) : Reading Expr := do
  let here ← position
  let item ← current
  match item.kind with
  | some (.number x) =>
    let _ ← advance
    return .number x
  | some (.keyword .trueWord) =>
    let _ ← advance
    return .boolean true
  | some (.keyword .falseWord) =>
    let _ ← advance
    return .boolean false
  | some (.mark .hash) =>
    let _ ← advance
    return .symbol lastResult
  | some (.identifier n) =>
    let _ ← advance
    if ← check .opening then call bound nested n
    else return .symbol n
  | some (.mark .opening) =>
    let _ ← advance
    let e ← descend nested here
    closing item.span
    return e
  | _ => failHere .expectedExpression

def negation (primary : Reading Expr) : Nat → Reading Expr
  | 0 => Stateful.stuck
  | bound + 1 => do
    let here ← position
    if ← eat .minus then
      let e ← descend (negation primary bound) here
      return Expr.negate e
    else primary

/-- The operators of one binding strength that follow `left`, each with its right operand. -/
def operators (operator? : Token.Mark → Option Operator) (operand : Reading Expr) :
    Nat → Nat → Expr → Reading Expr
  | 0, _, _ => Stateful.stuck
  | bound + 1, since, left => do
    match (← current).mark?.bind operator? with
    | some op =>
      note (.round since)
      let here ← position
      let _ ← advance
      let right ← operand
      operators operator? operand bound here (.binary op left right)
    | none => return left

/-- Operands with the operators of one binding strength between them, grouped from the left. -/
def level (bound : Nat) (operator? : Token.Mark → Option Operator) (operand : Reading Expr) :
    Reading Expr := do
  let here ← position
  let left ← operand
  operators operator? operand bound here left

/-- An expression that is not a function literal. -/
def equality (bound : Nat) (nested : Reading Expr) : Reading Expr :=
  level bound Expr.equalityOperator? <| level bound Expr.comparisonOperator? <|
    level bound Expr.sumOperator? <| level bound Expr.productOperator? <|
    negation (primary bound nested) bound

/-- Whether a function literal starts at the cursor: a parenthesis and `) ->`, or a parenthesis, a name and
a colon. -/
def atFunction : Reading Bool := do
  if ← check .opening then
    let first ← peek 1
    let second ← peek 2
    match first.kind, second.kind with
    | some (.mark .closing), some (.mark .arrow) => return true
    | some (.identifier _), some (.mark .colon) => return true
    | _, _ => return false
  else return false

def expression : Nat → Reading Expr
  | 0 => Stateful.stuck
  | bound + 1 => do
    if ← atFunction then function (bound + 1) (expression bound)
    else equality (bound + 1) (expression bound)

/-- A command; the cursor is then after it. -/
def front (bound : Nat) : Reading Command := do
  match (← current).kind with
  | some (.keyword .letWord) =>
    let _ ← advance
    let name ← identifier
    let _ ← expect .assign "`=`"
    let e ← expression bound
    return .define name e
  | some (.keyword .explain) =>
    let _ ← advance
    let e ← expression bound
    return .explain e
  | some (.keyword .symbols) =>
    let _ ← advance
    return .symbols
  | some (.keyword .exit) =>
    let _ ← advance
    return .exit
  | some (.keyword .quit) =>
    let _ ← advance
    return .exit
  | _ =>
    let e ← expression bound
    return .expression e

/-- A command that takes up the whole line. -/
def command (bound : Nat) : Reading Command := do
  let command ← front bound
  if ← atEnd then return command
  else failHere .trailingInput

end Reckoner.Reading
