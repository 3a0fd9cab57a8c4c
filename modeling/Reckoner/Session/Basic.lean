import Reckoner.Command.Parser
import Reckoner.Eval.Basic
import Reckoner.Expr.Substitution
import Reckoner.Prelude
import Reckoner.Text.Blank

/-! # Sessions

A session reads one line after another and keeps a table of bindings.  A line that binds a name is
checked against the table first; where it mentions the name it binds, it means what the name was
bound to before.  A line that cannot be parsed or checked is rejected and changes nothing.
-/
namespace Reckoner

/-- A line that was not accepted, and what to say about it. -/
structure Rejection where
  message : String
  line : String
  /-- The byte offset of the fault, which parse errors have and type errors have not. -/
  offset : Option Nat
  code : Option Diagnostic.Code
  hints : List String
deriving DecidableEq, Repr

namespace Rejection

def ofParseError (line : String) (e : ParseError) : Rejection :=
  ⟨e.message, line, some e.offset, some e.code, e.suggestions⟩

def ofTypeError (line : String) (e : TypeError) : Rejection :=
  ⟨e.message, line, none, some e.code, e.suggestions⟩

end Rejection

structure Limits where
  checking : Nat
  evaluation : Nat
deriving DecidableEq, Repr

def Limits.both (limit : Nat) : Limits :=
  ⟨limit, limit⟩

structure Session where
  table : Table
  /-- The number of lines rejected so far. -/
  rejected : Nat

namespace Session

def ofTable (t : Table) : Session :=
  ⟨t, 0⟩

def fresh : Session :=
  ofTable Prelude.table

/-- An expression about to be bound to a name, with its own name standing for what the name is
bound to so far. -/
def expandSelf (t : Table) (name : String) (e : Expr) : Expr :=
  if Expr.mentions name e then
    match t.get? name with
    | some previous => Expr.substitute name previous e
    | none => e
  else e

/-- The command of a line, or why the line is rejected. -/
def prepare (limit : Nat) (t : Table) (line : String) : Except Rejection Command :=
  match Command.parse line with
  | .error e => .error (.ofParseError line e)
  | .ok command =>
    match command.binding? with
    | none => .ok command
    | some (name, e) =>
      let e := expandSelf t name e
      match Typing.check limit (Scope.ofTable t) e with
      | .error err => .error (.ofTypeError line err)
      | .ok _ => .ok (command.withExpr e)

def bind (t : Table) (command : Command) : Table :=
  match command.binding? with
  | some (name, e) => t.insert name e
  | none => t

def accept (s : Session) : Except Rejection Command → Session
  | .error _ => ⟨s.table, s.rejected + 1⟩
  | .ok command => ⟨bind s.table command, s.rejected⟩

/-- The state after a line; a blank line changes nothing. -/
def execute (limit : Nat) (s : Session) (line : String) : Session :=
  if Text.blank line then s else s.accept (prepare limit s.table line)

end Session

end Reckoner
