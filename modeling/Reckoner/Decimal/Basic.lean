/-! # Decimals

A decimal is a whole number times a power of ten.  Here are its value as a double, rounded to the
nearest with a half going to the even neighbour, and its text in positional notation.
-/
namespace Reckoner

/-- The number `coefficient * 10 ^ exponent`. -/
structure Decimal where
  coefficient : Nat
  exponent : Int
deriving DecidableEq, Repr

namespace Decimal

def toFloat (d : Decimal) : Float :=
  Float.ofScientific d.coefficient (decide (d.exponent < 0)) d.exponent.natAbs

/-- The value of a digit, `0` for any other character. -/
def digitValue (c : Char) : Nat :=
  if c.isDigit then c.toNat - '0'.toNat else 0

/-- The whole number that a row of digits spells after the digits that spell `n`. -/
def readDigits (n : Nat) (digits : List Char) : Nat :=
  digits.foldl (fun n c => 10 * n + digitValue c) n

/-- A decimal read from the digits before the point, the digits after it and an exponent. -/
def ofDigits (whole fraction : List Char) (exponent : Int) : Decimal :=
  ⟨readDigits 0 (whole ++ fraction), exponent - fraction.length⟩

/-- The digits of a whole number, most significant first. -/
def digits (n : Nat) : List Char :=
  Nat.toDigits 10 n

/-- A decimal of the same value whose exponent is not positive. -/
def spread (d : Decimal) : Decimal :=
  if 0 ≤ d.exponent then ⟨d.coefficient * Nat.pow 10 d.exponent.toNat, 0⟩ else d

/-- Moves zeros from the end of the coefficient into the exponent, at most `fuel` of them. -/
def stripZeros : Nat → Decimal → Decimal
  | 0, d => d
  | fuel + 1, d =>
    if d.coefficient ≠ 0 ∧ d.coefficient % 10 = 0 then
      stripZeros fuel ⟨d.coefficient / 10, d.exponent + 1⟩
    else d

/-- A decimal of the same value whose coefficient does not end in a zero. -/
def reduce (d : Decimal) : Decimal :=
  stripZeros (digits d.coefficient).length d

/-- The number of places after the point in positional notation. -/
def places (d : Decimal) : Nat :=
  (-d.exponent).toNat

/-- Positional notation without an exponent: the digits, with zeros after them for a positive
exponent, or with a point before the last `places` of them, and at least one digit on each side of
a point. -/
def positional (d : Decimal) : List Char :=
  let row := digits d.spread.coefficient
  if d.places = 0 then row
  else
    let padded := List.replicate (d.places + 1 - row.length) '0' ++ row
    let whole := padded.length - d.places
    padded.take whole ++ '.' :: padded.drop whole

@[simp] theorem places_spread (d : Decimal) : d.spread.places = d.places := by
  unfold spread places
  split
  · rename_i h
    simp only [Int.neg_zero, Int.toNat_zero]
    omega
  · rfl

theorem spread_exponent_nonpos (d : Decimal) : d.spread.exponent ≤ 0 := by
  unfold spread
  split
  · exact Int.le_refl 0
  · omega

end Decimal

end Reckoner
