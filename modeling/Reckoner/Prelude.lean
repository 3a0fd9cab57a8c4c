import Reckoner.Eval.Basic
import Reckoner.MathFunction
import Reckoner.Scope.Table

/-! # The bindings of a fresh session

`sum` is an ordinary function literal; the others are host functions.  The host of a session has these
host functions and no others.
-/
namespace Reckoner

namespace Prelude

def numeric (name : String) : Parameter :=
  ⟨name, .number⟩

def sum : Expr :=
  .function 0 [numeric "a", numeric "b"] (.binary .add (.symbol "a") (.symbol "b"))

/-- The host functions, each with its name and the names of its parameters. -/
def hostFunctions : List (String × List String × MathFunction) :=
  [("sin", ["value"], .sin), ("cos", ["value"], .cos), ("tan", ["value"], .tan),
    ("sqrt", ["value"], .sqrt), ("abs", ["value"], .abs), ("exp", ["value"], .exp),
    ("ln", ["value"], .ln), ("pow", ["base", "exponent"], .pow), ("min", ["a", "b"], .min),
    ("max", ["a", "b"], .max)]

/-- What a host function computes, if it is a listed one. -/
def mathFunction? (f : HostFunction) : Option MathFunction :=
  (hostFunctions.find? (·.1 == f.symbol)).map (·.2.2)

def hostFunction? (name : String) : Option HostFunction :=
  if (mathFunction? ⟨name⟩).isSome then some ⟨name⟩ else none

def host : Host where
  run f args := (mathFunction? f).elim (.error "unknown host function") (·.apply args)

/-- The built-in functions with their names, in the order in which they are presented. -/
def bindings : List (String × Expr) :=
  ("sum", sum) :: hostFunctions.map fun (name, params, _) =>
    (name, .nativeFunction name (params.map numeric) .number ⟨name⟩)

def names : List String :=
  bindings.map (·.1)

/-- The table of a fresh session: zero as the last result, and the built-in functions. -/
def table : Table :=
  (Table.empty.insert lastResult (.number 0.0)).insertAll bindings

end Prelude

abbrev Eval.eval (limit : Nat) (s : Scope) (e : Expr) : Eval.Result :=
  Prelude.host.eval limit s e

end Reckoner
