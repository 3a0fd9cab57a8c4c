import Reckoner.Eval.Basic
import Reckoner.Scope.Walk

/-! # Evaluation in a store

Evaluation step by step as it works on a store: a call opens an activation at a new place and binds
its parameters there, also when the call fails later, and a closure keeps the place where it was made.
It comes to what evaluation in the scope of that place comes to.
-/
namespace Reckoner.Eval.Stored

def raise {α : Type} (stack : CallStack) (cause : EvalError.Cause) : Work Halt α :=
  throw (.error ⟨cause, stack.frames⟩)

def enter (stack : CallStack) (frame : StackFrame) (run : CallStack → Work Halt Kept) :
    Work Halt Kept :=
  match stack.push? frame with
  | none => raise stack (.recursionLimit stack.limit)
  | some stack => run stack

/-- Keeps a value that was worked out, or stops with the cause that there is none. -/
def settle (stack : CallStack) : Except EvalError.Cause Value → Work Halt Kept
  | .ok v => modifyGet fun s => (Kept.ofValue s v).swap
  | .error cause => raise stack cause

/-- Binds parameters to the literals of values in the table at a place, one after the other, up to the
first value that does not fit. -/
def bindValues (stack : CallStack) (place : Nat) : List Parameter → List Value → Work Halt Unit
  | p :: ps, v :: vs =>
    match v.literal? with
    | some e =>
      if v.simpleType? = some p.ty then do
        modify fun s => s.put place p.name e
        bindValues stack place ps vs
      else raise stack (.incompatible p.ty.shape v.shape)
    | none => raise stack (.incompatible p.ty.shape v.shape)
  | _, _ => return ()

/-- Calls a function whose closure has captured the table at a place, where `run` evaluates its
body. -/
def callClosure (run : CallStack → Nat → Expr → Work Halt Kept) (stack : CallStack) (name : String)
    (params : List Parameter) (body : Expr) (place : Nat) (args : List Value) : Work Halt Kept := do
  if params.length = args.length then
    let inner ← Work.openChild place .activation
    bindValues stack inner params args
    enter stack (.call name) fun stack => run stack inner body
  else raise stack (.arityMismatch name params.length args.length)

def evalAll (run : Expr → Work Halt Kept) : List Expr → Work Halt (List Kept)
  | [] => return []
  | e :: es => do
    let v ← run e
    let vs ← evalAll run es
    return v :: vs

def readArguments (run : Nat → Expr → Work Halt Kept) (stack : CallStack) (place : Nat) :
    List String → Work Halt (List Kept)
  | [] => return []
  | p :: ps => do
    match (← get).read? place p with
    | none => raise stack (.unboundArgument p)
    | some (bound, env) =>
      let v ← run env bound
      let vs ← readArguments run stack place ps
      return v :: vs

def evalWithin (host : Host) : Nat → CallStack → Nat → Expr → Work Halt Kept
  | 0, _, _, _ => throw .exhausted
  | fuel + 1, stack, place, e =>
    match e with
    | .number x => return .number x
    | .boolean b => return .boolean b
    | .symbol n => do
      match (← get).read? place n with
      | none => raise stack (.unknownSymbol n)
      | some (bound, env) =>
        enter stack (.symbol n) fun stack => evalWithin host fuel stack env bound
    | .binary op l r => do
      let left ← evalWithin host fuel stack place l
      let right ← evalWithin host fuel stack place r
      let s ← get
      settle stack (op.apply (left.value s) (right.value s))
    | .parameter p =>
      match p.ty.default? with
      | some v => settle stack (.ok v)
      | none => raise stack (.unboundArgument p.name)
    | .function mark ps b => return .function mark ps b place
    | .call f args => do
      match (← get).read? place f with
      | none => raise stack (.unknownFunction f)
      | some (.function _ ps body, _) =>
        if ps.length = args.length then
          let inner ← Work.openWith place .activation ((ps.map (·.name)).zip args)
          enter stack (.call f) fun stack => evalWithin host fuel stack inner body
        else raise stack (.arityMismatch f ps.length args.length)
      | some (bound, env) =>
        match ← enter stack (.symbol f) fun stack => evalWithin host fuel stack env bound with
        | .function _ ps body captured =>
          if ps.length = args.length then
            let values ← evalAll (evalWithin host fuel stack place) args
            let s ← get
            callClosure (evalWithin host fuel) stack f ps body captured (values.map (·.value s))
          else raise stack (.arityMismatch f ps.length args.length)
        | _ => raise stack (.unknownFunction f)
    | .native code => do
      let values ← readArguments (evalWithin host fuel stack) stack place code.params
      let s ← get
      settle stack ((host.run code.host (values.map (·.value s))).mapError (.native code.name))

def eval (host : Host) (limit : Nat) (place : Nat) (e : Expr) : Work Halt Kept := do
  let scope := (← get).scope place
  evalWithin host (budget limit (scope.size + e.size + 1)) (.ofLimit limit) place e

/-- The value of a closure, which has captured the table at a place, at some values. -/
def call (host : Host) (limit : Nat) (params : List Parameter) (body : Expr) (place : Nat)
    (args : List Value) : Work Halt Kept := do
  let scope := (← get).scope place
  callClosure (evalWithin host (budget limit (scope.size + body.size + args.length + 2)))
    (.ofLimit limit) closureName params body place args

end Reckoner.Eval.Stored
