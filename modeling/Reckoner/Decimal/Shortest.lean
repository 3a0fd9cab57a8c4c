import Reckoner.Decimal.Basic

/-! # The shortest decimal of a double

Every finite double has an exact decimal, and a short decimal that reads back as the same double.
The short one is looked for among the exact decimal's leading digits, cut off or rounded up: the
first count of digits at which one of the two reads back wins, and of two that do the nearer one,
the larger one when both are equally near.
-/
namespace Reckoner

/-- A positive finite double as a whole number times a power of two. -/
structure Dyadic where
  mantissa : Nat
  exponent : Int
deriving DecidableEq, Repr

namespace Dyadic

/-- The magnitude that the bits of a finite double stand for, its sign left out. -/
def ofBits (bits : UInt64) : Dyadic :=
  let fraction : Nat := bits.toNat % Nat.pow 2 52
  let biased : Nat := bits.toNat / Nat.pow 2 52 % Nat.pow 2 11
  if biased = 0 then ⟨fraction, -1074⟩ else ⟨Nat.pow 2 52 + fraction, biased - 1075⟩

/-- The decimal of the same value: halves are fives one place further right. -/
def toDecimal (x : Dyadic) : Decimal :=
  if 0 ≤ x.exponent then ⟨x.mantissa * Nat.pow 2 x.exponent.toNat, 0⟩
  else ⟨x.mantissa * Nat.pow 5 (-x.exponent).toNat, x.exponent⟩

end Dyadic

namespace Decimal

/-- A decimal reads back as `x` when its positional notation has the value `x`. -/
def readsBack (x : Float) (d : Decimal) : Bool :=
  d.spread.toFloat.toBits == x.toBits

/-- The two decimals with `drop` digits fewer that enclose a decimal: cut off, and one more.
Neither ends in a zero. -/
def cut (d : Decimal) (drop : Nat) : Decimal × Decimal :=
  let lower := d.coefficient / Nat.pow 10 drop
  (reduce ⟨lower, d.exponent + drop⟩, reduce ⟨lower + 1, d.exponent + drop⟩)

/-- Whether what is cut off is less than half a unit of the last digit kept. -/
def lowerIsNearer (d : Decimal) (drop : Nat) : Bool :=
  decide (2 * (d.coefficient % Nat.pow 10 drop) < Nat.pow 10 drop)

/-- The decimal with `drop` digits fewer that reads back as `x`, if one of the two does. -/
def cut? (x : Float) (d : Decimal) (drop : Nat) : Option Decimal :=
  let (lower, upper) := d.cut drop
  match readsBack x lower, readsBack x upper with
  | true, true => some (if d.lowerIsNearer drop then lower else upper)
  | true, false => some lower
  | false, true => some upper
  | false, false => none

/-- The first success when ever fewer digits are dropped, from `drop` down to one; dropping none
keeps the exact decimal. -/
def shortestFrom (x : Float) (d : Decimal) : Nat → Decimal
  | 0 => d.reduce
  | drop + 1 => (cut? x d (drop + 1)).getD (shortestFrom x d drop)

/-- The shortest decimal that reads back as a positive finite double. -/
def shortest (x : Float) : Decimal :=
  let exact := (Dyadic.ofBits x.toBits).toDecimal
  shortestFrom x exact ((digits exact.coefficient).length - 1)

/-- Whatever a cut gives reads back. -/
theorem readsBack_of_cut? {x : Float} {d e : Decimal} {drop : Nat}
    (h : cut? x d drop = some e) : readsBack x e := by
  unfold cut? at h
  revert h
  generalize hl : readsBack x (d.cut drop).1 = l
  generalize hu : readsBack x (d.cut drop).2 = u
  cases l <;> cases u
  · simp [hl, hu]
  · simp only [hl, hu, Option.some.injEq]
    rintro rfl
    exact hu
  · simp only [hl, hu, Option.some.injEq]
    rintro rfl
    exact hl
  · simp only [hl, hu, Option.some.injEq]
    rintro rfl
    split
    · exact hl
    · exact hu

end Decimal

end Reckoner
