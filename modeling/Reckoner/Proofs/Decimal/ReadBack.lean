import Mathlib
import Reckoner.Numeral
import Reckoner.Proofs.Binary64.Exact

/-! # Printed numbers read back

The decimal that a number is printed with is found by trying ever more digits, and the last resort
are all digits of the exact value.  That one reads back as well, since reading rounds to the nearest
double and the exact value needs no rounding.
-/
namespace Reckoner

open Float.Model Float.Model.UnpackedFloat

namespace Decimal

def value (d : Decimal) : ℚ :=
  d.coefficient * 10 ^ d.exponent

theorem value_stripZeros (fuel : Nat) (d : Decimal) : (stripZeros fuel d).value = d.value := by
  induction fuel generalizing d with
  | zero => rfl
  | succ fuel ih =>
    simp only [stripZeros]
    split
    · rename_i h
      rw [ih]
      have hten : ((d.coefficient / 10 : Nat) : ℚ) * 10 = d.coefficient := by
        exact_mod_cast Nat.div_mul_cancel (Nat.dvd_of_mod_eq_zero h.2)
      simp only [value]
      rw [zpow_add_one₀ (by norm_num), ← hten]
      ring
    · rfl

theorem value_reduce (d : Decimal) : d.reduce.value = d.value :=
  value_stripZeros _ d

theorem value_spread (d : Decimal) : d.spread.value = d.value := by
  simp only [spread]
  split
  · rename_i h
    have hexp : (10 : ℚ) ^ d.exponent = 10 ^ d.exponent.toNat := by
      rw [← zpow_natCast, Int.toNat_of_nonneg h]
    simp only [value, Nat.pow_eq, hexp]
    push_cast
    rw [mul_one]
  · rfl

/-- A decimal without a positive exponent that is the value of a double is read as this double. -/
theorem toFloat_exact {d : Decimal} {m : Nat} {e : Int} (hd : d.exponent ≤ 0)
    (h : Binary64.Canonical m e) (hvalue : d.value = Binary64.value m e) :
    d.toFloat = .ofModel (.pack (.finite .positive m e h.pos)) := by
  have hexp : d.exponent = -(d.exponent.natAbs : Int) := by omega
  have hcoefficient : (d.coefficient : ℚ) = Binary64.value m e * 10 ^ d.exponent.natAbs := by
    rw [← hvalue, value, hexp, Int.natAbs_neg, Int.natAbs_natCast, mul_assoc, zpow_neg,
      zpow_natCast, inv_mul_cancel₀ (pow_ne_zero _ (by norm_num)), mul_one]
  have hpos : 0 < d.coefficient := by
    have hprod : (0 : ℚ) < Binary64.value m e * 10 ^ d.exponent.natAbs :=
      mul_pos (Binary64.value_pos h.pos e) (pow_pos (by norm_num) _)
    rw [← hcoefficient] at hprod
    exact_mod_cast hprod
  have hsign : decide (d.exponent < 0) = decide (0 < d.exponent.natAbs) := by
    rw [decide_eq_decide]
    omega
  rw [toFloat, hsign]
  exact Binary64.ofScientific_exact hpos h hcoefficient

end Decimal

theorem Dyadic.value_toDecimal (x : Dyadic) :
    x.toDecimal.value = Binary64.value x.mantissa x.exponent := by
  simp only [toDecimal]
  split
  · rename_i h
    have hexp : (2 : ℚ) ^ x.exponent = 2 ^ x.exponent.toNat := by
      rw [← zpow_natCast, Int.toNat_of_nonneg h]
    simp [Decimal.value, Binary64.value, hexp]
  · rename_i h
    have hexp : x.exponent = -((-x.exponent).toNat : Int) := by omega
    have hfive : (5 : ℚ) ^ (-x.exponent).toNat * 10 ^ x.exponent = 2 ^ x.exponent := by
      generalize (-x.exponent).toNat = k at hexp
      rw [hexp, zpow_neg, zpow_neg, zpow_natCast, zpow_natCast, ← inv_pow, ← inv_pow, ← mul_pow]
      norm_num
    simp only [Decimal.value, Binary64.value, Nat.pow_eq]
    push_cast
    rw [mul_assoc, hfive]

/-- The mantissa and the exponent that are cut out of the bits of a double are its own. -/
theorem Dyadic.ofBits_eq {x : Float} {s : Sign} {m : Nat} {e : Int} {hm : 0 < m}
    (h : x.toModel.unpack = .finite s m e hm) : ofBits x.toBits = ⟨m, e⟩ := by
  rw [Float.Model.unpack, Binary64.unpack_eq_decode] at h
  change Binary64.decode x.toBits.toNat = _ at h
  simp only [Binary64.decode] at h
  unfold ofBits
  dsimp only
  split_ifs at h with h₁ h₂ h₃ h₄
  · cases h
    exact if_pos h₃
  · cases h
    exact if_neg h₃

namespace Decimal

theorem readsBack_of_value {x : Float} {m : Nat} {e : Int} {hm : 0 < m} {d : Decimal}
    (h : x.toModel.unpack = .finite .positive m e hm) (hd : d.value = Binary64.value m e) :
    readsBack x d = true := by
  have hcanonical := Binary64.canonical_of_unpack h
  have hread := toFloat_exact d.spread_exponent_nonpos hcanonical (d.value_spread.trans hd)
  simp only [readsBack]
  rw [hread, Binary64.pack_of_unpack h]
  exact beq_self_eq_true _

theorem readsBack_shortestFrom {x : Float} {d : Decimal} (h : readsBack x d.reduce = true)
    (drop : Nat) : readsBack x (shortestFrom x d drop) = true := by
  induction drop with
  | zero => exact h
  | succ drop ih =>
    simp only [shortestFrom]
    cases hcut : cut? x d (drop + 1) with
    | none => exact ih
    | some e => exact readsBack_of_cut? hcut

/-- The decimal that a positive number is printed with is read as this number. -/
theorem toFloat_spread_shortest {x : Float} {m : Nat} {e : Int} {hm : 0 < m}
    (h : x.toModel.unpack = .finite .positive m e hm) : (shortest x).spread.toFloat = x := by
  have hexact : (Dyadic.ofBits x.toBits).toDecimal.value = Binary64.value m e := by
    rw [Dyadic.value_toDecimal, Dyadic.ofBits_eq h]
  have hreduce : readsBack x (Dyadic.ofBits x.toBits).toDecimal.reduce = true :=
    readsBack_of_value h ((value_reduce _).trans hexact)
  have hbits := beq_iff_eq.mp (readsBack_shortestFrom hreduce
    ((digits (Dyadic.ofBits x.toBits).toDecimal.coefficient).length - 1))
  exact Binary64.eq_of_toBits hbits

end Decimal

end Reckoner
