import Reckoner.Eval.Error
import Reckoner.Value

/-! # Operators and host functions on values

Operands are looked at again before an operator is applied, since an expression may be evaluated
that was never checked.  Arithmetic is that of doubles: a division by zero gives an infinity or a
number that is not a number.

What a host function does with its arguments is open.  It may be given closures, and may give one.  An
evaluation takes place on a host, which has a function for every symbol.
-/
namespace Reckoner

/-- What host functions do with the values of their arguments: each gives a value, or a message that
says why it gives none. -/
structure Host where
  run : HostFunction → List Value → Except String Value

namespace Operator

def applyNumbers (op : Operator) (x y : Float) : Value :=
  match op with
  | equal => .boolean (x == y)
  | notEqual => .boolean (x != y)
  | less => .boolean (decide (x < y))
  | lessOrEqual => .boolean (decide (x ≤ y))
  | greater => .boolean (decide (x > y))
  | greaterOrEqual => .boolean (decide (x ≥ y))
  | add => .number (x + y)
  | subtract => .number (x - y)
  | multiply => .number (x * y)
  | divide => .number (x / y)

/-- Applies an operator to two values, if its category takes them. -/
def apply (op : Operator) (left right : Value) : Except EvalError.Cause Value :=
  match op, left, right with
  | op, .number x, .number y => .ok (op.applyNumbers x y)
  | equal, .boolean a, .boolean b => .ok (.boolean (a == b))
  | notEqual, .boolean a, .boolean b => .ok (.boolean (a != b))
  | _, left, right => .error (.incompatible left.shape right.shape)

/-- An operator has a value exactly for operands whose types its category takes. -/
theorem apply_isOk_iff (op : Operator) (left right : Value) :
    (∃ v, op.apply left right = .ok v) ↔
      ∃ a b, left.simpleType? = some a ∧ right.simpleType? = some b ∧
        Ty.compatibleFor op.category a b = true := by
  cases op <;> cases left <;> cases right <;>
    simp [apply, Value.simpleType?, category, Ty.compatibleFor, Ty.equalityCompatible,
      Ty.comparisonCompatible, Ty.arithmeticCompatible]

end Operator

end Reckoner
