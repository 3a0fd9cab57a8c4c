import Reckoner.Expr.Printer
import Reckoner.Typing.Check

/-! # Values

A value is a number, a boolean or a closure: a function literal together with the scope in which
it was evaluated.
-/
namespace Reckoner

/-- A function literal and the scope it was evaluated in. -/
structure Closure where
  mark : Nat
  params : List Parameter
  body : Expr
  scope : Scope

inductive Value where
  | number (value : Float)
  | boolean (value : Bool)
  | function (closure : Closure)

def Closure.arity (c : Closure) : Nat :=
  c.params.length

def Closure.literal (c : Closure) : Expr :=
  .function c.mark c.params c.body

namespace Value

def shape : Value → Ty.Shape
  | number _ => .number
  | boolean _ => .boolean
  | function _ => .function

def simpleType? : Value → Option Ty
  | number _ => some .number
  | boolean _ => some .boolean
  | function _ => none

/-- The literal for a number or a boolean. -/
def literal? : Value → Option Expr
  | number x => some (.number x)
  | boolean b => some (.boolean b)
  | function _ => none

/-- The text of a value: for a closure, that of its function literal. -/
def text : Value → String
  | number x => Numeral.text x
  | boolean b => Expr.booleanText b
  | function c => c.literal.display

/-- The type of a value; a closure is checked in its own scope. -/
def type (limit : Nat) : Value → Typing.Result
  | number _ => .ok .number
  | boolean _ => .ok .boolean
  | function c => Typing.checkFunction limit c.scope c.params c.body

/-- A value in one line: its type and its text, or the type alone for a closure, or only that it is
a function if its type cannot be worked out. -/
def describe : Value → String
  | number x => "Number: " ++ Numeral.text x
  | boolean b => "Boolean: " ++ Expr.booleanText b
  | function c =>
    match type Typing.defaultLimit (function c) with
    | .ok ty => ty.caption
    | .error _ => Ty.Shape.function.name

end Value

/-- The value of a parameter that has no argument. -/
def Ty.default? : Ty → Option Value
  | number => some (.number 0.0)
  | boolean => some (.boolean false)
  | function _ _ => none

end Reckoner
