/-! # Edit distance

The distance of two texts is the least number of characters to insert, delete or replace that
turns one into the other.  It is computed row by row: the row of a prefix of the first text holds
its distances to all prefixes of the second.
-/
namespace Reckoner.Text

/-- The rest of a row, left to right.  `above` is the row before it from the same place on, and
`left` the distance already found to the left. -/
def distanceRow (c : Char) : List Char → List Nat → Nat → List Nat
  | d :: ds, diagonal :: up :: above, left =>
    let here := min (min (up + 1) (left + 1)) (diagonal + if c = d then 0 else 1)
    here :: distanceRow c ds (up :: above) here
  | _, _, _ => []

/-- The last row, when `row` belongs to a prefix of length `done` and the characters `cs` are still
to come. -/
def distanceRows (target : List Char) : List Char → Nat → List Nat → List Nat
  | [], _, row => row
  | c :: cs, done, row =>
    distanceRows target cs (done + 1) ((done + 1) :: distanceRow c target row (done + 1))

def editDistance (a b : String) : Nat :=
  let target := b.toList
  (distanceRows target a.toList 0 (List.range (target.length + 1))).getLastD 0

end Reckoner.Text
