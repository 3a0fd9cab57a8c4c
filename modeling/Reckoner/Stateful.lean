/-! # Computations on a state

A computation changes a state as it goes along and may fail on the way.  What has been done to the state
by then stays done.
-/
namespace Reckoner

/-- A computation on a state that may fail, or get stuck at a step that the state does not allow. -/
abbrev Stateful (σ ε α : Type) := ExceptT ε (StateT σ Option) α

namespace Stateful

variable {σ ε α : Type}

/-- What a computation comes to from a state, and the state that it leaves, if it does not get stuck. -/
def outcome (x : Stateful σ ε α) (s : σ) : Option (Except ε α × σ) :=
  StateT.run x.run s

/-- Changes the state, where it allows that. -/
def change (f : σ → Option σ) : Stateful σ ε Unit :=
  ExceptT.lift fun s => (f s).map fun s' => ((), s')

def stuck : Stateful σ ε α :=
  ExceptT.mk fun _ => none

/-- What there is, or gets stuck where there is nothing. -/
def ofOption : Option α → Stateful σ ε α
  | some a => return a
  | none => stuck

/-- Runs a computation between two steps, of which the second is taken however the run has ended. -/
def between (before after : Stateful σ ε Unit) (run : Stateful σ ε α) : Stateful σ ε α := do
  before
  let outcome ← ExceptT.lift run.run
  after
  match outcome with
  | .ok a => return a
  | .error e => throw e

end Stateful

end Reckoner
