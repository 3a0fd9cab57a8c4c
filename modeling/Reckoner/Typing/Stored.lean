import Reckoner.Scope.Walk

/-! # Checks in a store

Checks step by step as they work on a store: the parameters of a function are declared in a table at a
new place, and the body is checked there.
-/
namespace Reckoner

namespace Typing.Stored

def checkArguments (check : Expr → Work TypeError Ty) : List Ty → List Expr → Work TypeError Unit
  | p :: ps, a :: as => do
    let ty ← check a
    if Ty.compatible p ty then checkArguments check ps as
    else throw (.incompatible p ty)
  | _, _ => return ()

/-- The type of a function whose literal stands in the scope of a place, where `check` gives the type
of its body. -/
def checkFunction (check : Nat → Expr → Work TypeError Ty) (place : Nat) (params : List Parameter)
    (body : Expr) : Work TypeError Ty := do
  let inner ← Work.openWith place .check (params.map fun p => (p.name, .parameter p))
  let result ← check inner body
  return .function (params.map (·.ty)) result

/-- The type of an expression in the scope of a place, where `room` more checks may nest of the
`limit` in all. -/
def checkWithin (limit : Nat) : Nat → Nat → Expr → Work TypeError Ty
  | 0, _, _ => throw (.recursionLimit limit)
  | room + 1, place, e =>
    match e with
    | .number _ => return .number
    | .boolean _ => return .boolean
    | .symbol n => do
      let s ← get
      match s.read? place n with
      | none => throw (.unknownSymbol n ((s.scope place).suggest? n))
      | some (bound, env) => checkWithin limit room env bound
    | .binary op l r => do
      let left ← checkWithin limit room place l
      let right ← checkWithin limit room place r
      if Ty.compatibleFor op.category left right then return Ty.combine left right
      else throw (.incompatible left right)
    | .parameter p => return p.ty
    | .function _ ps b => checkFunction (checkWithin limit room) place ps b
    | .call f args => do
      let s ← get
      match s.read? place f with
      | none => throw (.unknownFunction f ((s.scope place).suggest? f))
      | some (bound, env) =>
        match ← checkWithin limit room env bound with
        | .function params result =>
          if params.length = args.length then
            checkArguments (checkWithin limit room place) params args
            return result
          else throw (.arityMismatch f params.length args.length)
        | _ => throw (.unknownFunction f none)
    | .native code => return code.result

def check (limit : Nat) (place : Nat) (e : Expr) : Work TypeError Ty :=
  checkWithin limit limit place e

end Typing.Stored

namespace Kept

/-- The type of a value; a closure is checked in the scope of the place that it has captured. -/
def type (limit : Nat) : Kept → Work TypeError Ty
  | number _ => return .number
  | boolean _ => return .boolean
  | function _ params body place =>
    Typing.Stored.checkFunction (Typing.Stored.check limit) place params body

def describe {ε : Type} : Kept → Work ε String
  | number x => return "Number: " ++ Numeral.text x
  | boolean b => return "Boolean: " ++ Expr.booleanText b
  | function mark params body place => do
    match ← (type Typing.defaultLimit (function mark params body place)).run with
    | .ok ty => return ty.caption
    | .error _ => return Ty.Shape.function.name

end Kept

end Reckoner
