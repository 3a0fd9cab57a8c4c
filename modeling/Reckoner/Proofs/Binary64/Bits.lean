import Mathlib

/-! # The bits of a double

The model of a double cuts its bits into a sign, an exponent and a fraction.  Here the cuts are
remainders and quotients of one whole number, which arithmetic can decide.  A finite double has
exactly one mantissa and exponent, and packing these gives its bits back.
-/
namespace Reckoner.Binary64

open Float.Model Float.Model.UnpackedFloat

def signOf (n : Nat) : Sign :=
  if n / 2 ^ 63 % 2 = 0 then .positive else .negative

/-- What the bits of a double stand for, by arithmetic on the number that they spell. -/
def decode (n : Nat) : UnpackedFloat :=
  if n / 2 ^ 52 % 2 ^ 11 = 2047 then
    if n % 2 ^ 52 = 0 then .infinity (signOf n) else .notANumber
  else if n / 2 ^ 52 % 2 ^ 11 = 0 then
    if h : n % 2 ^ 52 = 0 then .zero (signOf n)
    else .finite (signOf n) (n % 2 ^ 52) (-1074) (Nat.pos_of_ne_zero h)
  else
    .finite (signOf n) (2 ^ 52 + n % 2 ^ 52) ((n / 2 ^ 52 % 2 ^ 11 : Nat) - 1075) (by omega)

theorem toNat_unpackMantissa (b : BitVec 64) :
    (@unpackMantissa Format.binary64 b).toNat = b.toNat % 2 ^ 52 := by
  simp [unpackMantissa]

theorem toNat_unpackExponent (b : BitVec 64) :
    (@unpackExponent Format.binary64 b).toNat = b.toNat / 2 ^ 52 % 2 ^ 11 := by
  simp [unpackExponent, Nat.shiftRight_eq_div_pow]

theorem toNat_unpackSign (b : BitVec 64) :
    (@unpackSign Format.binary64 b).toNat = b.toNat / 2 ^ 63 % 2 := by
  simp [unpackSign, Nat.shiftRight_eq_div_pow]

theorem toNat_append_eq {k n : Nat} (x : BitVec k) (y : BitVec n) :
    (x ++ y).toNat = x.toNat * 2 ^ n + y.toNat := by
  rw [BitVec.toNat_append, ← Nat.shiftLeft_add_eq_or_of_lt y.isLt, Nat.shiftLeft_eq]

theorem unpack_eq_decode (b : BitVec 64) : unpack Format.binary64 b = decode b.toNat := by
  have hs : Sign.ofBitVec (@unpackSign Format.binary64 b) = signOf b.toNat := by
    simp only [Sign.ofBitVec, signOf, ← toNat_unpackSign, ← BitVec.toNat_inj]
    rfl
  have hinf : @unpackExponent Format.binary64 b = -1#11 ↔
      b.toNat / 2 ^ 52 % 2 ^ 11 = 2047 := by
    rw [← BitVec.toNat_inj, toNat_unpackExponent]
    rfl
  have hzero : @unpackExponent Format.binary64 b = 0#11 ↔ b.toNat / 2 ^ 52 % 2 ^ 11 = 0 := by
    rw [← BitVec.toNat_inj, toNat_unpackExponent]
    rfl
  have hmant : @unpackMantissa Format.binary64 b = 0#52 ↔ b.toNat % 2 ^ 52 = 0 := by
    rw [← BitVec.toNat_inj, toNat_unpackMantissa]
    rfl
  have himplicit : (1#1 ++ @unpackMantissa Format.binary64 b).toNat =
      2 ^ 52 + b.toNat % 2 ^ 52 := by
    rw [toNat_append_eq, toNat_unpackMantissa]
    rfl
  simp only [UnpackedFloat.unpack, decode]
  simp only [hs, hinf, hzero, hmant, toNat_unpackExponent, toNat_unpackMantissa, himplicit]
  split_ifs with h₁ h₂ h₃ h₄
  · rfl
  · rfl
  · rfl
  · rw [h₃]
    rfl
  · rfl

/-- A mantissa and an exponent in the one form that a finite double has them. -/
structure Canonical (m : Nat) (e : Int) : Prop where
  pos : 0 < m
  lt : m < 2 ^ 53
  le : -1074 ≤ e
  fits : e ≤ 971
  normal : 2 ^ 52 ≤ m ∨ e = -1074

theorem canonical_of_decode {n m : Nat} {s : Sign} {e : Int} {hm : 0 < m}
    (h : decode n = .finite s m e hm) : Canonical m e := by
  simp only [decode] at h
  split_ifs at h with h₁ h₂ h₃
  · cases h
    exact ⟨hm, by omega, by omega, by omega, .inr rfl⟩
  · cases h
    exact ⟨hm, by omega, by omega, by omega, .inl (by omega)⟩

/-- The number that the bits of a sign, a mantissa and an exponent spell. -/
def encode (s : Sign) (m : Nat) (e : Int) : Nat :=
  if 2 ^ 52 ≤ m then s.toBitVec.toNat * 2 ^ 63 + (e + 1075).toNat * 2 ^ 52 + (m - 2 ^ 52)
  else s.toBitVec.toNat * 2 ^ 63 + m

theorem signOf_eq {n : Nat} {s : Sign} (h : n / 2 ^ 63 % 2 = s.toBitVec.toNat) :
    signOf n = s := by
  cases s with
  | positive => exact if_pos h
  | negative => exact if_neg (by rw [h]; decide)

theorem decode_encode {m : Nat} {e : Int} (h : Canonical m e) (s : Sign) :
    decode (encode s m e) = .finite s m e h.pos := by
  have hpos := h.pos
  have hlt := h.lt
  have hle := h.le
  have hfits := h.fits
  have hs : s.toBitVec.toNat < 2 := s.toBitVec.isLt
  simp only [encode]
  split_ifs with hnormal
  · generalize hn : s.toBitVec.toNat * 2 ^ 63 + (e + 1075).toNat * 2 ^ 52 + (m - 2 ^ 52) = n
    have hexp : n / 2 ^ 52 % 2 ^ 11 = (e + 1075).toNat := by omega
    have hfrac : n % 2 ^ 52 = m - 2 ^ 52 := by omega
    have hsign : signOf n = s := signOf_eq (by omega)
    simp only [decode]
    rw [if_neg (by omega), if_neg (by omega)]
    simp only [hexp, hfrac, hsign, UnpackedFloat.finite.injEq, true_and]
    omega
  · have he : e = -1074 := h.normal.resolve_left hnormal
    generalize hn : s.toBitVec.toNat * 2 ^ 63 + m = n
    have hfrac : n % 2 ^ 52 = m := by omega
    have hsign : signOf n = s := signOf_eq (by omega)
    simp only [decode]
    rw [if_neg (by omega), if_pos (by omega), dif_neg (by omega)]
    simp only [hfrac, hsign, he]

theorem toNat_sign_of_lt {n : Nat} (h : n < 2 ^ 64) :
    (signOf n).toBitVec.toNat = n / 2 ^ 63 := by
  simp only [signOf]
  split_ifs with hn
  · simp only [Sign.toBitVec, BitVec.toNat_ofNat]
    omega
  · simp only [Sign.toBitVec, BitVec.toNat_ofNat]
    omega

theorem encode_of_decode {n m : Nat} {s : Sign} {e : Int} {hm : 0 < m} (hn : n < 2 ^ 64)
    (h : decode n = .finite s m e hm) : encode s m e = n := by
  have hsign := toNat_sign_of_lt hn
  simp only [decode] at h
  split_ifs at h with h₁ h₂ h₃
  · cases h
    simp only [encode]
    rw [hsign, if_neg (by omega)]
    omega
  · cases h
    simp only [encode]
    rw [hsign, if_pos (by omega)]
    omega

theorem toNat_packComponents (s : Sign) (x : BitVec 11) (f : BitVec 52) :
    (packComponents Format.binary64 s x f).toNat =
      s.toBitVec.toNat * 2 ^ 63 + x.toNat * 2 ^ 52 + f.toNat := by
  have h : (s.toBitVec ++ x ++ f).toNat =
      (s.toBitVec.toNat * 2 ^ 11 + x.toNat) * 2 ^ 52 + f.toNat := by
    rw [toNat_append_eq, toNat_append_eq]
  calc (packComponents Format.binary64 s x f).toNat
      = (s.toBitVec.toNat * 2 ^ 11 + x.toNat) * 2 ^ 52 + f.toNat := h
    _ = s.toBitVec.toNat * 2 ^ 63 + x.toNat * 2 ^ 52 + f.toNat := by omega

theorem log2_eq_of_normal {m : Nat} (hle : 2 ^ 52 ≤ m) (hlt : m < 2 ^ 53) : m.log2 = 52 :=
  (Nat.log2_eq_iff (by omega)).mpr ⟨hle, hlt⟩

theorem toNat_pack {m : Nat} {e : Int} (h : Canonical m e) (s : Sign) :
    (UnpackedFloat.pack Format.binary64 (.finite s m e h.pos)).toNat = encode s m e := by
  have hpos := h.pos
  have hlt := h.lt
  have hle := h.le
  have hfits := h.fits
  have hbias : (e + (Format.binary64.exponentBias : Int) + (52 : Nat)).toNat =
      (e + 1075).toNat := by
    have : (Format.binary64.exponentBias : Int) = 1023 := rfl
    omega
  simp only [UnpackedFloat.pack, encode]
  simp only [hbias]
  rw [if_neg (by omega)]
  split_ifs with hlog hnormal hnormal
  · rw [toNat_packComponents, BitVec.toNat_ofNat, BitVec.toNat_ofNat]
    omega
  · have hlog52 : m.log2 < 52 := (Nat.log2_lt (by omega)).mpr (by omega)
    have : Format.binary64.mantissaBits = 53 := rfl
    omega
  · have hlog52 := log2_eq_of_normal hnormal hlt
    have : Format.binary64.mantissaBits = 53 := rfl
    omega
  · rw [toNat_packComponents, BitVec.toNat_ofNat]
    simp only [BitVec.toNat_ofNat]
    omega

/-- Packing keeps a canonical mantissa and exponent. -/
theorem unpack_pack {m : Nat} {e : Int} (h : Canonical m e) (s : Sign) :
    (Float.Model.pack (.finite s m e h.pos)).unpack = .finite s m e h.pos := by
  have hbits : (Float.Model.pack (.finite s m e h.pos)).toBits.toBitVec.toNat = encode s m e :=
    toNat_pack h s
  rw [Float.Model.unpack, unpack_eq_decode, hbits, decode_encode h]

theorem canonical_of_unpack {f : Float.Model} {s : Sign} {m : Nat} {e : Int} {hm : 0 < m}
    (h : f.unpack = .finite s m e hm) : Canonical m e := by
  rw [Float.Model.unpack, unpack_eq_decode] at h
  exact canonical_of_decode h

/-- The bits of a finite double are those of its mantissa and exponent. -/
theorem pack_of_unpack {f : Float.Model} {s : Sign} {m : Nat} {e : Int} {hm : 0 < m}
    (h : f.unpack = .finite s m e hm) : Float.Model.pack (.finite s m e hm) = f := by
  have hcanonical := canonical_of_unpack h
  rw [Float.Model.unpack, unpack_eq_decode] at h
  have hbits : (Float.Model.pack (.finite s m e hm)).toBits.toBitVec.toNat =
      f.toBits.toBitVec.toNat :=
    (toNat_pack hcanonical s).trans (encode_of_decode f.toBits.toBitVec.isLt h)
  obtain ⟨bits, hvalid⟩ := f
  simp only [Float.Model.pack, Float.Model.mk.injEq] at hbits ⊢
  apply UInt64.toBitVec_inj.mp
  exact BitVec.toNat_inj.mp hbits

/-- Doubles with the same bits are equal. -/
theorem eq_of_toBits {x y : Float} (h : x.toBits = y.toBits) : x = y := by
  obtain ⟨⟨a, ha⟩⟩ := x
  obtain ⟨⟨b, hb⟩⟩ := y
  have hab : a = b := h
  subst hab
  rfl

end Reckoner.Binary64
