import Reckoner.Value

/-! # Functions of numbers

The functions of a host that sessions have names for.  Each takes as many numbers as it has parameters,
gives a number, and says what is wrong with any other arguments.
-/
namespace Reckoner

inductive MathFunction where
  | sin | cos | tan | sqrt | abs | exp | ln | pow | min | max
deriving DecidableEq, Repr

namespace MathFunction

def arity : MathFunction → Nat
  | sin | cos | tan | sqrt | abs | exp | ln => 1
  | pow | min | max => 2

/-- The smaller of two numbers; a number that is not a number counts as missing. -/
def smaller (x y : Float) : Float :=
  if x.isNaN then y else if y.isNaN then x else if y < x then y else x

def larger (x y : Float) : Float :=
  if x.isNaN then y else if y.isNaN then x else if x < y then y else x

/-- The value at some numbers, if there are as many as the function takes. -/
def compute? : MathFunction → List Float → Option Float
  | sin, [x] => some x.sin
  | cos, [x] => some x.cos
  | tan, [x] => some x.tan
  | sqrt, [x] => some x.sqrt
  | abs, [x] => some x.abs
  | exp, [x] => some x.exp
  | ln, [x] => some x.log
  | pow, [x, y] => some (x.pow y)
  | min, [x, y] => some (smaller x y)
  | max, [x, y] => some (larger x y)
  | _, _ => none

theorem compute?_isSome_iff (f : MathFunction) (xs : List Float) :
    (f.compute? xs).isSome ↔ xs.length = f.arity := by
  rcases xs with _ | ⟨x, _ | ⟨y, _ | ⟨z, xs⟩⟩⟩ <;> cases f <;> simp [compute?, arity]

/-- The numbers among arguments, or the shape of the first argument that is none. -/
def numbers : List Value → Except Ty.Shape (List Float)
  | [] => .ok []
  | .number x :: vs => do return x :: (← numbers vs)
  | v :: _ => .error v.shape

/-- The value at some arguments, or a message that says why there is none. -/
def apply (f : MathFunction) (args : List Value) : Except String Value :=
  let wrongCount := "expected " ++ toString f.arity ++ " arguments, got " ++ toString args.length
  if args.length = f.arity then
    match numbers args with
    | .error shape => .error ("expected a Number, got " ++ shape.name)
    | .ok xs => (f.compute? xs).elim (.error wrongCount) (.ok ∘ .number)
  else .error wrongCount

end MathFunction

end Reckoner
