import Reckoner.Scope.Suggestion
import Reckoner.Typing.Error

/-! # The type of an expression

A name has the type of the expression it is bound to, worked out anew at each use.  A function
body is checked with every parameter standing for its declaration.  Bindings may refer back to
themselves, so a limit bounds how deep checks nest.
-/
namespace Reckoner.Typing

abbrev Result := Except TypeError Ty

def checkArguments (check : Expr → Result) : List Ty → List Expr → Except TypeError Unit
  | p :: ps, a :: as => do
    let ty ← check a
    if Ty.compatible p ty then checkArguments check ps as
    else .error (.incompatible p ty)
  | _, _ => .ok ()

/-- The type of an expression, where `room` more checks may nest of the `limit` in all. -/
def checkWithin (limit : Nat) : Nat → Scope → Expr → Result
  | 0, _, _ => .error (.recursionLimit limit)
  | room + 1, s, e =>
    match e with
    | .number _ => .ok .number
    | .boolean _ => .ok .boolean
    | .symbol n =>
      match s.resolve? n with
      | none => .error (.unknownSymbol n (s.suggest? n))
      | some (bound, env) => checkWithin limit room env bound
    | .binary op l r => do
      let left ← checkWithin limit room s l
      let right ← checkWithin limit room s r
      if Ty.compatibleFor op.category left right then .ok (Ty.combine left right)
      else .error (.incompatible left right)
    | .parameter p => .ok p.ty
    | .function _ ps b => do
      let result ← checkWithin limit room (s.declare ps) b
      .ok (.function (ps.map (·.ty)) result)
    | .call f args =>
      match s.resolve? f with
      | none => .error (.unknownFunction f (s.suggest? f))
      | some (bound, env) => do
        match ← checkWithin limit room env bound with
        | .function params result =>
          if params.length = args.length then
            checkArguments (checkWithin limit room s) params args
            .ok result
          else .error (.arityMismatch f params.length args.length)
        | _ => .error (.unknownFunction f none)
    | .native code => .ok code.result

def check (limit : Nat) (s : Scope) (e : Expr) : Result :=
  checkWithin limit limit s e

/-- The type of a function whose body is read in a scope. -/
def checkFunction (limit : Nat) (s : Scope) (params : List Parameter) (body : Expr) : Result := do
  let result ← check limit (s.declare params) body
  .ok (.function (params.map (·.ty)) result)

def defaultLimit : Nat := 512

end Reckoner.Typing
