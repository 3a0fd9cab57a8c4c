import Reckoner.Expr.Basic
import Reckoner.Numeral

/-! # The source text of an expression

Operators associate to the left, so an operand is put in parentheses when it binds looser than the
operator, and on the right also when it binds equally tight.  A function literal extends as far to
the right as it can, so as an operand it always stands in parentheses.
-/
namespace Reckoner

def Parameter.text (p : Parameter) : String :=
  p.name ++ ": " ++ p.ty.caption

namespace Expr

def booleanText (b : Bool) : String :=
  if b then "true" else "false"

/-- How tight an expression binds as an operand; above all operators if it needs no parentheses. -/
def precedence : Expr → Nat
  | binary op _ _ => op.precedence
  | function _ _ _ => 0
  | _ => 5

/-- An operand's text, in parentheses if it needs them. -/
def operand (parens : Bool) (text : String) : String :=
  if parens then "(" ++ text ++ ")" else text

mutual

def display : Expr → String
  | number x => Numeral.text x
  | boolean b => booleanText b
  | symbol n => n
  | binary op l r =>
    operand (decide (l.precedence < op.precedence)) (display l) ++ " " ++ op.symbol ++ " " ++
      operand (decide (r.precedence ≤ op.precedence)) (display r)
  | parameter p => p.text
  | function _ ps b => "(" ++ ", ".intercalate (ps.map Parameter.text) ++ ") -> " ++ display b
  | call f args => f ++ "(" ++ displayAll args ++ ")"
  | native code => "<native " ++ code.name ++ ">"

def displayAll : List Expr → String
  | [] => ""
  | [e] => display e
  | e :: es => display e ++ ", " ++ displayAll es

end

end Expr

end Reckoner
