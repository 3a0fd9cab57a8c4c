import Reckoner.Expr.Basic

/-! # Commands

One line of input is one command.
-/
namespace Reckoner

/-- What a line asks for. -/
inductive Command where
  /-- Leave the session. -/
  | exit
  /-- Show the tree of an expression. -/
  | explain (e : Expr)
  /-- Evaluate an expression and keep it as the last result. -/
  | expression (e : Expr)
  /-- Bind a name to an expression. -/
  | define (name : String) (e : Expr)
  /-- List the bindings. -/
  | symbols

namespace Command

/-- The name that a command binds, and the expression it binds it to. -/
def binding? : Command → Option (String × Expr)
  | expression e => some (lastResult, e)
  | define n e => some (n, e)
  | _ => none

def expr? : Command → Option Expr
  | explain e => some e
  | expression e => some e
  | define _ e => some e
  | _ => none

def withExpr (e : Expr) : Command → Command
  | explain _ => explain e
  | expression _ => expression e
  | define n _ => define n e
  | c => c

end Command

end Reckoner
