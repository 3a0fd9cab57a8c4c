import Reckoner.Scope.Basic
import Reckoner.Text.EditDistance

/-! # Suggesting a name

For a name that is not bound, the bound name that differs least from it is suggested, if it does
not differ too much.
-/
namespace Reckoner.Scope

/-- How far a suggestion may be from a name of some length in bytes. -/
def suggestionThreshold (length : Nat) : Nat :=
  if length = 0 then 0
  else if length ≤ 2 then 1
  else if length ≤ 5 then 2
  else if length ≤ 10 then 3
  else min (length / 2) 5

/-- The distance of a candidate that is worth suggesting for a name.  Lengths that are too far
apart need no closer look. -/
def suggestionDistance? (name candidate : String) : Option Nat :=
  let threshold := suggestionThreshold name.utf8ByteSize
  let gap := max (name.utf8ByteSize - candidate.utf8ByteSize)
    (candidate.utf8ByteSize - name.utf8ByteSize)
  if gap > threshold ∨ candidate = name then none
  else
    let distance := Text.editDistance name candidate
    if distance > threshold then none else some distance

/-- The better of the best candidate so far and the next one, which has to be closer to win. -/
def closer (name : String) (best : Option (String × Nat)) (candidate : String) :
    Option (String × Nat) :=
  match suggestionDistance? name candidate, best with
  | none, _ => best
  | some d, none => some (candidate, d)
  | some d, some (b, e) => if d < e then some (candidate, d) else some (b, e)

def closest? (name : String) (candidates : List String) : Option String :=
  if name.isEmpty then none else (candidates.foldl (closer name) none).map (·.1)

/-- The bound name to suggest for a name that is not bound. -/
def suggest? (s : Scope) (name : String) : Option String :=
  closest? name s.visibleNames

end Reckoner.Scope
