import Reckoner.Eval.Basic
import Reckoner.Stateful

/-! # Evaluation on a live stack

Evaluation step by step with one stack for all of it.  A call or a look at a bound name pushes its frame
before what it leads to is evaluated, and pops it afterwards, also when that has failed; an error takes its
backtrace from what is on the stack when it arises.
-/
namespace Reckoner

/-- A stack of frames, the innermost first, with a limit for how many it may hold. -/
@[ext] structure LiveStack where
  frames : Backtrace
  limit : Nat
  /-- The most frames that it has held so far. -/
  deepest : Nat
deriving DecidableEq, Repr

namespace LiveStack

def add (s : LiveStack) (f : StackFrame) : LiveStack :=
  ⟨f :: s.frames, s.limit, max s.deepest (s.frames.length + 1)⟩

def drop? (s : LiveStack) : Option LiveStack :=
  match s.frames with
  | [] => none
  | _ :: frames => some { s with frames }

def clear (s : LiveStack) : LiveStack :=
  { s with frames := [] }

end LiveStack

abbrev Live (α : Type) := Stateful LiveStack Halt α

namespace Eval.Live

def raise {α : Type} (cause : EvalError.Cause) : Live α := do
  let stack ← get
  throw (.error ⟨cause, stack.frames⟩)

/-- Pushes a frame, unless the stack is at its limit. -/
def push (frame : StackFrame) : Live Unit := do
  let stack ← get
  if stack.limit ≤ stack.frames.length then raise (.recursionLimit stack.limit)
  else set (stack.add frame)

def pop : Live Unit :=
  Stateful.change LiveStack.drop?

def enter (frame : StackFrame) (run : Live Value) : Live Value :=
  Stateful.between (push frame) pop run

def literals : List Parameter → List Value → Live (List Expr)
  | p :: ps, v :: vs => do
    match v.literal? with
    | some e =>
      if v.simpleType? = some p.ty then return e :: (← literals ps vs)
      else raise (.incompatible p.ty.shape v.shape)
    | none => raise (.incompatible p.ty.shape v.shape)
  | _, _ => return []

def callClosure (run : Scope → Expr → Live Value) (name : String) (c : Closure)
    (args : List Value) : Live Value := do
  if c.arity = args.length then
    let literals ← literals c.params args
    enter (.call name) (run (c.scope.activate c.params literals) c.body)
  else raise (.arityMismatch name c.arity args.length)

def evalAll (run : Expr → Live Value) : List Expr → Live (List Value)
  | [] => return []
  | e :: es => do
    let v ← run e
    let vs ← evalAll run es
    return v :: vs

def readArguments (run : Scope → Expr → Live Value) (s : Scope) : List String → Live (List Value)
  | [] => return []
  | p :: ps =>
    match s.resolve? p with
    | none => raise (.unboundArgument p)
    | some (bound, env) => do
      let v ← run env bound
      let vs ← readArguments run s ps
      return v :: vs

def settle : Except EvalError.Cause Value → Live Value
  | .ok v => return v
  | .error cause => raise cause

def evalWithin (host : Host) : Nat → Scope → Expr → Live Value
  | 0, _, _ => throw .exhausted
  | fuel + 1, s, e =>
    match e with
    | .number x => return .number x
    | .boolean b => return .boolean b
    | .symbol n =>
      match s.resolve? n with
      | none => raise (.unknownSymbol n)
      | some (bound, env) => enter (.symbol n) (evalWithin host fuel env bound)
    | .binary op l r => do
      let left ← evalWithin host fuel s l
      let right ← evalWithin host fuel s r
      settle (op.apply left right)
    | .parameter p =>
      match p.ty.default? with
      | some v => return v
      | none => raise (.unboundArgument p.name)
    | .function mark ps b => return .function ⟨mark, ps, b, s⟩
    | .call f args =>
      match s.resolve? f with
      | none => raise (.unknownFunction f)
      | some (.function _ ps body, _) =>
        if ps.length = args.length then
          enter (.call f) (evalWithin host fuel (s.activate ps args) body)
        else raise (.arityMismatch f ps.length args.length)
      | some (bound, env) => do
        match ← enter (.symbol f) (evalWithin host fuel env bound) with
        | .function c =>
          if c.arity = args.length then
            let values ← evalAll (evalWithin host fuel s) args
            callClosure (evalWithin host fuel) f c values
          else raise (.arityMismatch f c.arity args.length)
        | _ => raise (.unknownFunction f)
    | .native code => do
      let values ← readArguments (evalWithin host fuel) s code.params
      settle ((host.run code.host values).mapError (.native code.name))

/-- What an evaluation on the cleared stack comes to.  Work on the stack can go on after it, also when it
has failed. -/
def eval (host : Host) (s : Scope) (e : Expr) : Live (Except Halt Value) := do
  let stack ← get
  set stack.clear
  ExceptT.lift (evalWithin host (budget stack.limit (s.size + e.size + 1)) s e).run

end Eval.Live

end Reckoner
