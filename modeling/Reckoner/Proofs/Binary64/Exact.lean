import Mathlib
import Reckoner.Proofs.Binary64.Bits

/-! # Exact results are not rounded

An operation on doubles rounds its exact result.  Where the exact result is itself the value of a
double, rounding keeps it: the bits that rounding drops are zeros.  This is shown for products,
quotients and whole numbers, and for decimals from these.
-/
namespace Reckoner.Binary64

open Float.Model Float.Model.UnpackedFloat

def value (m : Nat) (e : Int) : ℚ :=
  m * 2 ^ e

theorem value_pos {m : Nat} (h : 0 < m) (e : Int) : 0 < value m e :=
  mul_pos (Nat.cast_pos.mpr h) (zpow_pos two_pos e)

theorem value_mul_two_pow (m k : Nat) (e : Int) : value (m * 2 ^ k) e = value m (e + k) := by
  simp only [value]
  rw [zpow_add₀ two_ne_zero, zpow_natCast]
  push_cast
  ring

theorem value_mul_value (m n : Nat) (e f : Int) :
    value m e * value n f = value (m * n) (e + f) := by
  simp only [value]
  rw [zpow_add₀ two_ne_zero]
  push_cast
  ring

/-- Of two equal numbers, the one with the smaller exponent has the other's mantissa shifted. -/
theorem eq_mul_two_pow {m n k : Nat} {e f : Int} (h : value m e = value n f) (hf : f = e + k) :
    m = n * 2 ^ k := by
  rw [hf, ← value_mul_two_pow] at h
  have hpow : (2 : ℚ) ^ e ≠ 0 := zpow_ne_zero e two_ne_zero
  exact_mod_cast mul_right_cancel₀ hpow h

/-- Larger numbers have the larger total exponents. -/
theorem log2_add_le {m n : Nat} {e f : Int} (hm : 0 < m) (h : value m e ≤ value n f) :
    (m.log2 : Int) + e ≤ n.log2 + f := by
  have hlower : (2 : ℚ) ^ ((m.log2 : Int) + e) ≤ value m e := by
    rw [zpow_add₀ two_ne_zero, zpow_natCast]
    refine mul_le_mul_of_nonneg_right ?_ (zpow_pos two_pos e).le
    exact_mod_cast Nat.log2_self_le hm.ne'
  have hupper : value n f < (2 : ℚ) ^ ((n.log2 : Int) + 1 + f) := by
    rw [zpow_add₀ two_ne_zero]
    refine mul_lt_mul_of_pos_right ?_ (zpow_pos two_pos f)
    exact_mod_cast Nat.lt_log2_self
  have hlt := lt_of_le_of_lt (hlower.trans h) hupper
  have hexp := (zpow_lt_zpow_iff_right₀ one_lt_two).mp hlt
  omega

theorem totalExponent_eq {m n : Nat} {e f : Int} (hm : 0 < m) (hn : 0 < n)
    (h : value m e = value n f) : totalExponent m e = totalExponent n f := by
  have hle := log2_add_le hm h.le
  have hge := log2_add_le hn h.ge
  simp only [totalExponent]
  omega

/-- A canonical exponent is the one that rounding aims at. -/
theorem Canonical.target {m : Nat} {e : Int} (h : Canonical m e) :
    Format.binary64.targetExponent (totalExponent m e) = e := by
  have hbits : (Format.binary64.mantissaBits : Int) = 53 := rfl
  have hmin : Format.binary64.minExponent = -1074 := rfl
  have hlog : m.log2 < 53 := (Nat.log2_lt h.pos.ne').mpr h.lt
  simp only [Format.targetExponent, totalExponent]
  rw [hbits, hmin]
  rcases h.normal with hnormal | hmin
  · have := log2_eq_of_normal hnormal h.lt
    have := h.le
    omega
  · omega

theorem shiftRight_mul_two_pow (m k : Nat) :
    (⟨m * 2 ^ k, false, false⟩ : ExtendedMantissa) >>> k = ⟨m, false, false⟩ := by
  induction k generalizing m with
  | zero => simp [HShiftRight.hShiftRight, Nat.repeat]
  | succ k ih =>
    have hk := ih (m * 2)
    rw [Nat.mul_assoc, ← Nat.pow_succ'] at hk
    change ExtendedMantissa.shiftRightOne
      ((⟨m * 2 ^ (k + 1), false, false⟩ : ExtendedMantissa) >>> k) = _
    rw [hk]
    simp [ExtendedMantissa.shiftRightOne]

theorem shiftToTargetExponent_exact {m : Nat} {e : Int} (h : Canonical m e) (k : Nat) :
    shiftToTargetExponent Format.binary64 (m * 2 ^ k) (e - k) .exact = (⟨m, false, false⟩, e) := by
  have htotal : totalExponent (m * 2 ^ k) (e - k) = totalExponent m e := by
    apply totalExponent_eq (Nat.mul_pos h.pos (Nat.two_pow_pos k)) h.pos
    rw [value_mul_two_pow, Int.sub_add_cancel]
  have hshift : (e - (e - k : Int)).toNat = k := by omega
  simp only [shiftToTargetExponent]
  rw [htotal, h.target]
  simp only [shiftToExponent, hshift, ExtendedMantissa.ofMantissaAndAccuracy,
    shiftRight_mul_two_pow, Prod.mk.injEq, true_and]
  omega

/-- Rounding keeps what is canonical up to zeros at the end of the mantissa. -/
theorem roundWithAccuracy_exact {m : Nat} {e : Int} (h : Canonical m e) (s : Sign) (k : Nat) :
    roundWithAccuracy Format.binary64 s (m * 2 ^ k) (e - k) .exact = .finite s m e h.pos := by
  have hfirst := shiftToTargetExponent_exact h k
  have hsecond := shiftToTargetExponent_exact h 0
  simp only [Nat.pow_zero, Nat.mul_one, Int.natCast_zero, Int.sub_zero] at hsecond
  have hrounded : (⟨m, false, false⟩ : ExtendedMantissa).roundedMantissa = m := rfl
  simp only [roundWithAccuracy, hfirst, hrounded, hsecond]
  rw [dif_neg h.pos.ne']

theorem mul_exact {m₁ m₂ m : Nat} {e₁ e₂ e : Int} {h₁ : 0 < m₁} {h₂ : 0 < m₂}
    (h : Canonical m e) (hvalue : value m₁ e₁ * value m₂ e₂ = value m e) (hle : e₁ + e₂ ≤ e) :
    UnpackedFloat.mul Format.binary64 (.finite .positive m₁ e₁ h₁) (.finite .positive m₂ e₂ h₂) =
      .finite .positive m e h.pos := by
  obtain ⟨k, hk⟩ := Int.le.dest hle
  rw [value_mul_value] at hvalue
  have hm := eq_mul_two_pow hvalue hk.symm
  have he : e₁ + e₂ = e - k := by omega
  rw [UnpackedFloat.mul, hm, he]
  exact roundWithAccuracy_exact h .positive k

theorem targetExponent_mono {a b : Int} (h : a ≤ b) :
    Format.binary64.targetExponent a ≤ Format.binary64.targetExponent b := by
  simp only [Format.targetExponent]
  omega

theorem log2_mul_le {m n : Nat} (hm : 0 < m) (hn : 0 < n) :
    (m * n).log2 ≤ m.log2 + n.log2 + 1 := by
  have hlt : m * n < 2 ^ (m.log2 + 1) * 2 ^ (n.log2 + 1) :=
    Nat.mul_lt_mul'' Nat.lt_log2_self Nat.lt_log2_self
  rw [← Nat.pow_add] at hlt
  have hlog := (Nat.log2_lt (Nat.mul_pos hm hn).ne').mpr hlt
  omega

theorem div_exact {m₁ m₂ m : Nat} {e₁ e₂ e : Int} {h₁ : 0 < m₁} {h₂ : 0 < m₂}
    (h : Canonical m e) (hvalue : value m₁ e₁ = value m e * value m₂ e₂) :
    UnpackedFloat.div Format.binary64 (.finite .positive m₁ e₁ h₁) (.finite .positive m₂ e₂ h₂) =
      .finite .positive m e h.pos := by
  rw [value_mul_value] at hvalue
  -- The quotient is computed with an exponent that is at most that of the exact result.
  have htotal : totalExponent m₁ e₁ - totalExponent m₂ e₂ ≤ totalExponent m e := by
    have hlog := log2_add_le h₁ hvalue.le
    have hmul := log2_mul_le h.pos h₂
    simp only [totalExponent]
    omega
  have htarget := targetExponent_mono htotal
  rw [h.target] at htarget
  generalize ht : min (e₁ - e₂)
    (Format.binary64.targetExponent (totalExponent m₁ e₁ - totalExponent m₂ e₂)) = t
  obtain ⟨k, hk⟩ := Int.le.dest (show t ≤ e by omega)
  obtain ⟨j, hj⟩ := Int.le.dest (show t ≤ e₁ - e₂ by omega)
  -- So it divides without a remainder.
  have hquotient : m₁ * 2 ^ j = m * 2 ^ k * m₂ := by
    have hshifted : value (m₁ * 2 ^ j) (t + e₂) = value (m * m₂) (e + e₂) := by
      rw [value_mul_two_pow, ← hvalue]
      congr 1
      omega
    rw [eq_mul_two_pow hshifted (by omega : e + e₂ = t + e₂ + k)]
    ring
  have hcore : divCore Format.binary64 m₁ e₁ m₂ e₂ = (m * 2 ^ k, e - k, .exact) := by
    have hshift : (e₁ - e₂ - t).toNat = j := by omega
    have hexp : t = e - k := by omega
    simp only [divCore, ht, hshift, Nat.shiftLeft_eq, hquotient, Nat.mul_div_cancel _ h₂,
      Nat.mul_mod_left]
    rw [hexp]
    rfl
  simp only [UnpackedFloat.div, hcore]
  exact roundWithAccuracy_exact h .positive k

theorem round_exact {m₁ m : Nat} {e₁ e : Int} (hm₁ : 0 < m₁) (h : Canonical m e) (s : Sign)
    (hvalue : value m₁ e₁ = value m e) :
    UnpackedFloat.round Format.binary64 s m₁ e₁ = .finite s m e h.pos := by
  simp only [UnpackedFloat.round]
  rw [totalExponent_eq hm₁ h.pos hvalue, h.target]
  rcases Int.le_total e e₁ with hle | hle
  · obtain ⟨j, hj⟩ := Int.le.dest hle
    have hshift : (e₁ - e).toNat = j := by omega
    have hm : m = m₁ * 2 ^ j := eq_mul_two_pow hvalue.symm hj.symm
    have hexp : e₁ - j = e := by omega
    have hrounded := roundWithAccuracy_exact h s 0
    simp only [Nat.pow_zero, Nat.mul_one, Int.natCast_zero, Int.sub_zero] at hrounded
    simp only [decreaseExponent, hshift, Nat.shiftLeft_eq, ← hm, hexp]
    exact hrounded
  · obtain ⟨k, hk⟩ := Int.le.dest hle
    have hshift : (e₁ - e).toNat = 0 := by omega
    have hm : m₁ = m * 2 ^ k := eq_mul_two_pow hvalue hk.symm
    have hexp : e₁ = e - k := by omega
    simp only [decreaseExponent, hshift, Nat.shiftLeft_zero, Int.natCast_zero, Int.sub_zero]
    rw [hm, hexp]
    exact roundWithAccuracy_exact h s k

/-- A whole number below `2 ^ 53` as the mantissa and the exponent of a double. -/
theorem canonical_of_lt {c : Nat} (hpos : 0 < c) (hlt : c < 2 ^ 53) :
    Canonical (c * 2 ^ (52 - c.log2)) (c.log2 - 52) := by
  have hlog : c.log2 < 53 := (Nat.log2_lt hpos.ne').mpr hlt
  have hlower : 2 ^ 52 ≤ c * 2 ^ (52 - c.log2) := by
    calc 2 ^ 52 = 2 ^ c.log2 * 2 ^ (52 - c.log2) := by rw [← Nat.pow_add]; congr 1; omega
      _ ≤ c * 2 ^ (52 - c.log2) := Nat.mul_le_mul_right _ (Nat.log2_self_le hpos.ne')
  have hupper : c * 2 ^ (52 - c.log2) < 2 ^ 53 := by
    calc c * 2 ^ (52 - c.log2) < 2 ^ (c.log2 + 1) * 2 ^ (52 - c.log2) :=
        Nat.mul_lt_mul_of_pos_right Nat.lt_log2_self (Nat.two_pow_pos _)
      _ = 2 ^ 53 := by rw [← Nat.pow_add]; congr 1; omega
  exact ⟨by omega, hupper, by omega, by omega, .inl hlower⟩

theorem unpack_toFloat {c : Nat} (hpos : 0 < c) (hlt : c < 2 ^ 53) :
    ∃ m e, ∃ h : Canonical m e, value m e = c ∧
      c.toUInt64.toFloat.toModel.unpack = .finite .positive m e h.pos := by
  have h := canonical_of_lt hpos hlt
  have hlog : c.log2 < 53 := (Nat.log2_lt hpos.ne').mpr hlt
  have hvalue : value c 0 = value (c * 2 ^ (52 - c.log2)) (c.log2 - 52) := by
    rw [value_mul_two_pow]
    congr 1
    omega
  have hc : value c 0 = c := by simp [value]
  refine ⟨_, _, h, hvalue.symm.trans hc, ?_⟩
  have hnat : c.toUInt64.toNat = c := by
    rw [Nat.toUInt64_eq, UInt64.toNat_ofNat']
    omega
  have hcompare : compare (c : Int) 0 = .gt := Int.compare_eq_gt.mpr (by omega)
  have hunpacked : UnpackedFloat.ofUInt64 Format.binary64 c.toUInt64 =
      .finite .positive (c * 2 ^ (52 - c.log2)) (c.log2 - 52) h.pos := by
    simp only [UnpackedFloat.ofUInt64, UnpackedFloat.ofNat, UnpackedFloat.ofInt,
      UnpackedFloat.normalize]
    simp only [hnat, hcompare, Int.toNat_natCast]
    exact round_exact hpos h .positive hvalue
  change (Float.Model.pack (UnpackedFloat.ofUInt64 Format.binary64 c.toUInt64)).unpack = _
  rw [hunpacked, unpack_pack h]

/-- Whether an unpacked double stands for a whole number. -/
def standsFor (n : Nat) : UnpackedFloat → Bool
  | .finite .positive m e _ => m * 2 ^ e.toNat == n * 2 ^ (-e).toNat
  | _ => false

theorem exists_of_standsFor {n : Nat} {u : UnpackedFloat} (h : standsFor n u = true) :
    ∃ m e hm, u = .finite .positive m e hm ∧ value m e = n := by
  simp only [standsFor] at h
  split at h
  · rename_i m e hm
    refine ⟨m, e, hm, rfl, ?_⟩
    have heq : (m : ℚ) * 2 ^ e.toNat = n * 2 ^ (-e).toNat := by exact_mod_cast beq_iff_eq.mp h
    have hexp : (2 : ℚ) ^ e.toNat = 2 ^ e * 2 ^ (-e).toNat := by
      rw [← zpow_natCast, ← zpow_natCast, ← zpow_add₀ two_ne_zero]
      congr 1
      omega
    have hpow : (2 : ℚ) ^ (-e).toNat ≠ 0 := pow_ne_zero _ two_ne_zero
    rw [hexp, ← mul_assoc] at heq
    exact mul_right_cancel₀ hpow heq
  · cases h

theorem standsFor_powersOfTen : ∀ k : Fin Float.exactlyRepresentablePowersOfTen.size,
    standsFor (10 ^ k.val) (Float.exactlyRepresentablePowersOfTen[k]).toModel.unpack = true := by
  decide +kernel

theorem pack_ofScientific_exact {c k m : Nat} {e : Int} (hc : 0 < c) (h : Canonical m e)
    (hvalue : (c : ℚ) = value m e * 10 ^ k) :
    UnpackedFloat.ofScientific Format.binary64 c (-(k : Int)) = .finite .positive m e h.pos := by
  have hzero : value c 0 = c := by simp [value]
  have hten : value (10 ^ k) 0 = 10 ^ k := by simp [value]
  have hquotient : value c 0 = value m e * value (10 ^ k) 0 := by rw [hzero, hten, hvalue]
  -- The result is not so small that it is taken for zero.
  have hsmall : (k : Int) ≤ c.log2 + 1074 := by
    have hle : value m (e + k) ≤ value c 0 := by
      rw [hquotient, hten, ← value_mul_two_pow]
      simp only [value]
      push_cast
      rw [mul_right_comm]
      refine mul_le_mul_of_nonneg_left ?_ (value_pos h.pos e).le
      exact pow_le_pow_left₀ (by norm_num) (by norm_num) k
    have hlog := log2_add_le h.pos hle
    have := h.le
    omega
  have hmax : (2 : Int) ^ Format.binary64.exponentBits = 2048 := rfl
  simp only [UnpackedFloat.ofScientific]
  rw [dif_neg hc.ne', hmax, if_neg (by omega), if_neg (by omega)]
  split_ifs with hk
  · have hk0 : k = 0 := by omega
    subst hk0
    have hshift : value (c <<< 53) (-53) = value c 0 := by
      rw [Nat.shiftLeft_eq, value_mul_two_pow]
      rfl
    have hexp : -53 ≤ e := by
      rw [hten, pow_zero, mul_one] at hquotient
      have hlog := log2_add_le hc hquotient.le
      have hm : m.log2 < 53 := (Nat.log2_lt h.pos.ne').mpr h.lt
      omega
    apply mul_exact h _ (by rw [Int.add_zero]; exact hexp)
    change value (c <<< 53) (-53) * value 1 0 = value m e
    rw [hshift, hquotient]
    simp [value]
  · have hneg : (-(-(k : Int))).toNat = k := by omega
    simp only [hneg]
    exact div_exact h hquotient

theorem float_div_exact {x y : Float} {m₁ m₂ m : Nat} {e₁ e₂ e : Int} {h₁ : 0 < m₁} {h₂ : 0 < m₂}
    (hx : x.toModel.unpack = .finite .positive m₁ e₁ h₁)
    (hy : y.toModel.unpack = .finite .positive m₂ e₂ h₂) (h : Canonical m e)
    (hvalue : value m₁ e₁ = value m e * value m₂ e₂) :
    x / y = .ofModel (.pack (.finite .positive m e h.pos)) := by
  change Float.ofModel (Float.Model.pack
    (UnpackedFloat.div Format.binary64 x.toModel.unpack y.toModel.unpack)) = _
  rw [hx, hy, div_exact h hvalue]

theorem float_mul_exact {x y : Float} {m₁ m₂ m : Nat} {e₁ e₂ e : Int} {h₁ : 0 < m₁} {h₂ : 0 < m₂}
    (hx : x.toModel.unpack = .finite .positive m₁ e₁ h₁)
    (hy : y.toModel.unpack = .finite .positive m₂ e₂ h₂) (h : Canonical m e)
    (hvalue : value m₁ e₁ * value m₂ e₂ = value m e) (hle : e₁ + e₂ ≤ e) :
    x * y = .ofModel (.pack (.finite .positive m e h.pos)) := by
  change Float.ofModel (Float.Model.pack
    (UnpackedFloat.mul Format.binary64 x.toModel.unpack y.toModel.unpack)) = _
  rw [hx, hy, mul_exact h hvalue hle]

/-- A decimal that is the value of a double is read as this double. -/
theorem ofScientific_exact {c k m : Nat} {e : Int} (hc : 0 < c) (h : Canonical m e)
    (hvalue : (c : ℚ) = value m e * 10 ^ k) :
    Float.ofScientific c (decide (0 < k)) k = .ofModel (.pack (.finite .positive m e h.pos)) := by
  simp only [Float.ofScientific]
  split
  · rename_i hfast
    obtain ⟨m₁, e₁, h₁, hvalue₁, hunpack₁⟩ := unpack_toFloat hc hfast.1
    obtain ⟨m₂, e₂, h₂, hunpack₂, hvalue₂⟩ :=
      exists_of_standsFor (standsFor_powersOfTen ⟨k, Nat.lt_succ_of_le hfast.2⟩)
    have hquotient : value m₁ e₁ = value m e * value m₂ e₂ := by
      rw [hvalue₁, hvalue₂, hvalue]
      push_cast
      rfl
    simp only [Fin.getElem_fin] at hunpack₂
    by_cases hk : 0 < k
    · simp only [hk, decide_true, if_true]
      exact float_div_exact hunpack₁ hunpack₂ h hquotient
    · obtain rfl : k = 0 := by omega
      have hone : value m₂ e₂ = 1 := by rw [hvalue₂]; simp
      rw [hone, mul_one] at hquotient
      have hsame : e₁ = e := by
        rw [← h₁.target, totalExponent_eq h₁.pos h.pos hquotient, h.target]
      have hlog : (m₂.log2 : Int) + e₂ ≤ (1 : Nat).log2 + 0 :=
        log2_add_le h₂ (by rw [hone]; simp [value])
      have hlog_one : (1 : Nat).log2 = 0 := rfl
      have hexp : e₁ + e₂ ≤ e := by omega
      simp only [hk, decide_false]
      refine float_mul_exact hunpack₁ hunpack₂ h ?_ hexp
      rw [hone, mul_one, hquotient]
  · have hexp : (if decide (0 < k) = true then Int.negOfNat k else Int.ofNat k) = -(k : Int) := by
      split_ifs with hk
      · exact Int.negOfNat_eq
      · simp only [decide_eq_true_eq, Nat.pos_iff_ne_zero, ne_eq, not_not] at hk
        subst hk
        rfl
    simp only [hexp, Float.Model.ofScientific, pack_ofScientific_exact hc h hvalue]

end Reckoner.Binary64
