import Reckoner.Eval.CallStack
import Reckoner.Typing.Error

/-! # Evaluation errors -/
namespace Reckoner

namespace EvalError

inductive Cause where
  | unknownSymbol (name : String)
  /-- A callee that is not bound, or not bound to a function. -/
  | unknownFunction (name : String)
  | arityMismatch (name : String) (expected actual : Nat)
  /-- Operands that do not go together, or a parameter and an argument that does not fit it. -/
  | incompatible (left right : Ty.Shape)
  /-- More nested calls and names than the limit. -/
  | recursionLimit (limit : Nat)
  /-- Host code that cannot use its arguments. -/
  | native (name message : String)
  /-- A parameter that has no argument. -/
  | unboundArgument (name : String)
deriving DecidableEq, Repr

def Cause.message : Cause → String
  | unknownSymbol n => "unknown symbol `" ++ n ++ "`"
  | unknownFunction n => "unknown function `" ++ n ++ "`"
  | arityMismatch n expected actual => arityText n expected actual
  | incompatible l r => "incompatible operands: " ++ l.name ++ " and " ++ r.name
  | recursionLimit limit => "maximum recursion depth exceeded (" ++ toString limit ++ ")"
  | native n message => "`" ++ n ++ "` failed: " ++ message
  | unboundArgument n => "no argument bound for parameter `" ++ n ++ "`"

def Cause.code : Cause → Diagnostic.Code
  | unknownSymbol _ => .unknownSymbol
  | unknownFunction _ => .unknownFunction
  | arityMismatch _ _ _ => .wrongArity
  | incompatible _ _ => .wrongOperands
  | recursionLimit _ => .evaluationTooDeep
  | native _ _ => .nativeFailed
  | unboundArgument _ => .unboundArgument

end EvalError

/-- A cause, and the frames that were on the stack. -/
structure EvalError where
  cause : EvalError.Cause
  backtrace : Backtrace
deriving DecidableEq, Repr

namespace EvalError

def message (e : EvalError) : String :=
  e.cause.message

/-- The diagnostic of an evaluation error, which notes the three innermost frames. -/
def diagnostic (e : EvalError) : Diagnostic :=
  ⟨e.cause.code, .error, e.message, none, (e.backtrace.take 3).map (fun f => "in " ++ f.text), []⟩

end EvalError

end Reckoner
