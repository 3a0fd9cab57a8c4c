import Reckoner.Stateful
import Reckoner.Typing.Check

/-! # Checks with a depth counter

Checks step by step with one counter of how deep they nest.  A check counts up before it looks at its
expression and down again afterwards, also when it has failed.
-/
namespace Reckoner

abbrev Counted (α : Type) := Stateful Nat TypeError α

namespace Typing.Counted

/-- Counts one level more, unless the counter is at the limit. -/
def descend (limit : Nat) : Counted Unit := do
  let depth ← get
  if limit ≤ depth then throw (.recursionLimit limit)
  else set (depth + 1)

def ascend : Counted Unit :=
  Stateful.change fun depth =>
    match depth with
    | 0 => none
    | depth + 1 => some depth

def checkArguments (check : Expr → Counted Ty) : List Ty → List Expr → Counted Unit
  | p :: ps, a :: as => do
    let ty ← check a
    if Ty.compatible p ty then checkArguments check ps as
    else throw (.incompatible p ty)
  | _, _ => return ()

/-- The type of an expression, where `check` gives the types of what it leads to. -/
def checkNode (check : Scope → Expr → Counted Ty) (s : Scope) : Expr → Counted Ty
  | .number _ => return .number
  | .boolean _ => return .boolean
  | .symbol n =>
    match s.resolve? n with
    | none => throw (.unknownSymbol n (s.suggest? n))
    | some (bound, env) => check env bound
  | .binary op l r => do
    let left ← check s l
    let right ← check s r
    if Ty.compatibleFor op.category left right then return Ty.combine left right
    else throw (.incompatible left right)
  | .parameter p => return p.ty
  | .function _ ps b => do
    let result ← check (s.declare ps) b
    return .function (ps.map (·.ty)) result
  | .call f args =>
    match s.resolve? f with
    | none => throw (.unknownFunction f (s.suggest? f))
    | some (bound, env) => do
      match ← check env bound with
      | .function params result =>
        if params.length = args.length then
          checkArguments (check s) params args
          return result
        else throw (.arityMismatch f params.length args.length)
      | _ => throw (.unknownFunction f none)
  | .native code => return code.result

/-- The type of an expression in a scope, with some fuel, where checks nest no deeper than the limit. -/
def checkWithin (limit : Nat) : Nat → Scope → Expr → Counted Ty
  | 0, _, _ => Stateful.stuck
  | fuel + 1, s, e =>
    Stateful.between (descend limit) ascend (checkNode (checkWithin limit fuel) s e)

end Typing.Counted

end Reckoner
