import Reckoner.Expr.Basic

/-! # Free names and substitution

A name occurs free in an expression as a symbol, or as the callee of a call, outside the function
literals that declare it as a parameter.  Substitution replaces the symbols only: a callee is a
name, not an expression.
-/
namespace Reckoner.Expr

def declares (params : List Parameter) (name : String) : Bool :=
  params.any (·.name == name)

mutual

/-- Whether a name occurs free in an expression, as a symbol or as a callee. -/
def mentions (name : String) : Expr → Bool
  | symbol n => n == name
  | binary _ l r => mentions name l || mentions name r
  | function _ ps b => !declares ps name && mentions name b
  | call f args => f == name || mentionsAny name args
  | _ => false

def mentionsAny (name : String) : List Expr → Bool
  | [] => false
  | e :: es => mentions name e || mentionsAny name es

end

mutual

/-- An expression with its free symbols `name` replaced, or `none` if it has none, so that the
expression itself can stand for the result. -/
def replace? (name : String) (replacement : Expr) : Expr → Option Expr
  | symbol n => if n = name then some replacement else none
  | binary op l r =>
    match replace? name replacement l, replace? name replacement r with
    | none, none => none
    | l', r' => some (binary op (l'.getD l) (r'.getD r))
  | function m ps b =>
    if declares ps name then none
    else (replace? name replacement b).map (function m ps)
  | call f args => (replaceAll? name replacement args).map (call f)
  | _ => none

def replaceAll? (name : String) (replacement : Expr) : List Expr → Option (List Expr)
  | [] => none
  | e :: es =>
    match replace? name replacement e, replaceAll? name replacement es with
    | none, none => none
    | e', es' => some (e'.getD e :: es'.getD es)

end

/-- An expression with its free symbols `name` replaced. -/
def substitute (name : String) (replacement e : Expr) : Expr :=
  (replace? name replacement e).getD e

end Reckoner.Expr
