import Reckoner.Eval.Live
import Reckoner.Session.Console

/-! # Listings on a live stack

The rows of a listing are described one after another, and all of them on one stack.
-/
namespace Reckoner.Session

def describeAll (t : Table) : List (String × Expr) → Live (List (String × String))
  | [] => return []
  | (name, e) :: rest => do
    let outcome ← Eval.Live.eval Prelude.host (Scope.ofTable t) e
    let rows ← describeAll t rest
    return (name, describeOutcome outcome) :: rows

end Reckoner.Session
