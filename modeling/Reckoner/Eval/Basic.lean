import Reckoner.Eval.Operation

/-! # Evaluation

A call of a name that is bound to a function literal binds the parameters to the arguments as they
are written, in an activation inside the scope of the call; an argument is evaluated each time its
parameter is read.  A call of a name bound to anything else evaluates that to a closure, then the
arguments, and binds the parameters to their values inside the closure's scope.

Only calls and names add to the call stack, so its limit alone does not end an evaluation whose
host code reads an argument that leads back to the same host code.  Evaluation therefore has a
second bound, its fuel, which every step into a part uses up by one.  Running out of fuel is kept
apart from every error.

An evaluation takes place on a host, which it asks for the values of host code.
-/
namespace Reckoner

/-- What an evaluation stops with when it gives no value. -/
inductive Halt where
  /-- The expression has no value. -/
  | error (e : EvalError)
  /-- The fuel did not suffice to tell. -/
  | exhausted
deriving DecidableEq, Repr

namespace Eval

abbrev Result := Except Halt Value

/-- Stops with an error whose backtrace is the stack. -/
def raise {α : Type} (stack : CallStack) (cause : EvalError.Cause) : Except Halt α :=
  .error (.error ⟨cause, stack.frames⟩)

def enter (stack : CallStack) (frame : StackFrame) (run : CallStack → Result) : Result :=
  match stack.push? frame with
  | none => raise stack (.recursionLimit stack.limit)
  | some stack => run stack

/-- The literals for arguments that have the declared types of the parameters. -/
def literals (stack : CallStack) : List Parameter → List Value → Except Halt (List Expr)
  | p :: ps, v :: vs => do
    match v.literal? with
    | some e =>
      if v.simpleType? = some p.ty then return e :: (← literals stack ps vs)
      else raise stack (.incompatible p.ty.shape v.shape)
    | none => raise stack (.incompatible p.ty.shape v.shape)
  | _, _ => .ok []

/-- Calls a closure with values, where `run` evaluates its body. -/
def callClosure (run : CallStack → Scope → Expr → Result) (stack : CallStack) (name : String)
    (c : Closure) (args : List Value) : Result := do
  if c.arity = args.length then
    let literals ← literals stack c.params args
    enter stack (.call name) fun stack => run stack (c.scope.activate c.params literals) c.body
  else raise stack (.arityMismatch name c.arity args.length)

/-- The values of expressions in order, up to the first that has none. -/
def evalAll (run : Expr → Result) : List Expr → Except Halt (List Value)
  | [] => .ok []
  | e :: es => do
    let v ← run e
    let vs ← evalAll run es
    return v :: vs

/-- The values of the arguments that host code reads from a scope, by their names. -/
def readArguments (run : Scope → Expr → Result) (stack : CallStack) (s : Scope) :
    List String → Except Halt (List Value)
  | [] => .ok []
  | p :: ps =>
    match s.resolve? p with
    | none => raise stack (.unboundArgument p)
    | some (bound, env) => do
      let v ← run env bound
      let vs ← readArguments run stack s ps
      return v :: vs

def settle (stack : CallStack) : Except EvalError.Cause Value → Result
  | .ok v => .ok v
  | .error cause => raise stack cause

/-- Fuel for an evaluation, by the number of nodes in the scope and the expression.  Between two
frames added to the stack, host code reads at most every binding from every place of the scope, and
what it reads has no more nodes than that. -/
def budget (limit weight : Nat) : Nat :=
  (limit + 1) * (weight + 1) * ((limit + 1) * weight * (weight + limit) + 1)

/-- The name that a call of a closure by itself goes by. -/
def closureName : String := "<closure>"

def defaultLimit : Nat := 512

end Eval

namespace Host

open Eval

/-- The value of an expression in a scope, with some fuel. -/
def evalWithin (host : Host) : Nat → CallStack → Scope → Expr → Result
  | 0, _, _, _ => .error .exhausted
  | fuel + 1, stack, s, e =>
    match e with
    | .number x => .ok (.number x)
    | .boolean b => .ok (.boolean b)
    | .symbol n =>
      match s.resolve? n with
      | none => raise stack (.unknownSymbol n)
      | some (bound, env) =>
        enter stack (.symbol n) fun stack => host.evalWithin fuel stack env bound
    | .binary op l r => do
      let left ← host.evalWithin fuel stack s l
      let right ← host.evalWithin fuel stack s r
      settle stack (op.apply left right)
    | .parameter p =>
      match p.ty.default? with
      | some v => .ok v
      | none => raise stack (.unboundArgument p.name)
    | .function mark ps b => .ok (.function ⟨mark, ps, b, s⟩)
    | .call f args =>
      match s.resolve? f with
      | none => raise stack (.unknownFunction f)
      | some (.function _ ps body, _) =>
        if ps.length = args.length then
          enter stack (.call f) fun stack => host.evalWithin fuel stack (s.activate ps args) body
        else raise stack (.arityMismatch f ps.length args.length)
      | some (bound, env) => do
        match ← enter stack (.symbol f) fun stack => host.evalWithin fuel stack env bound with
        | .function c =>
          if c.arity = args.length then
            let values ← evalAll (host.evalWithin fuel stack s) args
            callClosure (host.evalWithin fuel) stack f c values
          else raise stack (.arityMismatch f c.arity args.length)
        | _ => raise stack (.unknownFunction f)
    | .native code => do
      let values ← readArguments (host.evalWithin fuel stack) stack s code.params
      settle stack ((host.run code.host values).mapError (.native code.name))

/-- The value of an expression in a scope, with at most `limit` frames on the stack. -/
def eval (host : Host) (limit : Nat) (s : Scope) (e : Expr) : Result :=
  host.evalWithin (budget limit (s.size + e.size + 1)) (.ofLimit limit) s e

def call (host : Host) (limit : Nat) (c : Closure) (args : List Value) : Result :=
  callClosure (host.evalWithin (budget limit (c.scope.size + c.body.size + args.length + 2)))
    (.ofLimit limit) closureName c args

end Host

end Reckoner
