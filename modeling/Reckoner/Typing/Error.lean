import Reckoner.Diagnostic.Basic
import Reckoner.Ty

/-! # Type errors -/
namespace Reckoner

inductive TypeError where
  /-- A symbol that is not bound, and a bound name that may have been meant. -/
  | unknownSymbol (name : String) (suggestion : Option String)
  /-- A callee that is not bound, or not bound to a function. -/
  | unknownFunction (name : String) (suggestion : Option String)
  | arityMismatch (name : String) (expected actual : Nat)
  /-- Operands that do not go together, or an argument that does not fit its parameter. -/
  | incompatible (left right : Ty)
  /-- The check nests deeper than the limit. -/
  | recursionLimit (limit : Nat)
deriving DecidableEq, Repr

def arityText (name : String) (expected actual : Nat) : String :=
  "`" ++ name ++ "` expects " ++ toString expected ++ " argument" ++
    (if expected = 1 then "" else "s") ++ ", got " ++ toString actual

namespace TypeError

def code : TypeError → Diagnostic.Code
  | unknownSymbol _ _ => .untypedSymbol
  | unknownFunction _ _ => .untypedFunction
  | arityMismatch _ _ _ => .untypedArity
  | incompatible _ _ => .untypedOperands
  | recursionLimit _ => .typingTooDeep

def message : TypeError → String
  | unknownSymbol n _ => "unknown symbol `" ++ n ++ "`"
  | unknownFunction n _ => "unknown function `" ++ n ++ "`"
  | arityMismatch n expected actual => arityText n expected actual
  | incompatible l r => "incompatible types: " ++ l.caption ++ " and " ++ r.caption
  | recursionLimit limit => "type checking exceeded the depth limit of " ++ toString limit

/-- The name that may have been meant. -/
def suggestion? : TypeError → Option String
  | unknownSymbol _ s => s
  | unknownFunction _ s => s
  | _ => none

def notes : TypeError → List String
  | recursionLimit _ => ["a binding or function refers back to itself"]
  | _ => []

def suggestions (e : TypeError) : List String :=
  e.suggestion?.toList.map fun n => "did you mean `" ++ n ++ "`?"

def diagnostic (e : TypeError) : Diagnostic :=
  ⟨e.code, .error, e.message, none, e.notes, e.suggestions⟩

end TypeError

end Reckoner
