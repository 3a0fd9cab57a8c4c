import Mathlib
import Reckoner.Proofs.Decimal.ReadBack
import Reckoner.Proofs.Token.Shapes

/-! # Numbers are scanned as they are printed

The text of a positive number is one token with the number as its value.  A minus sign stands
before the text of a negative number, and both zeros are printed alike.
-/
namespace Reckoner

open Token (NumberText kinds Breaks Reads)
open Token.Shape (mem_row mem_fraction)

namespace Decimal

theorem all_isDigit_digits (n : Nat) : (digits n).all Char.isDigit = true := by
  rw [List.all_eq_true]
  exact fun c hc => Nat.isDigit_of_mem_toDigits (by decide) (by decide) hc

theorem readDigits_of_isDigit {row : List Char} (h : row.all Char.isDigit = true) (n : Nat) :
    readDigits n row = Nat.ofDigitChars 10 row n := by
  induction row generalizing n with
  | nil => rfl
  | cons c row ih =>
    simp only [List.all_cons, Bool.and_eq_true] at h
    rw [Nat.ofDigitChars_cons, ← ih h.2]
    simp [readDigits, digitValue, h.1]

theorem readDigits_digits (n : Nat) : readDigits 0 (digits n) = n := by
  rw [readDigits_of_isDigit (all_isDigit_digits n)]
  exact Nat.ofDigitChars_ten_toDigits

theorem readDigits_replicate_append (k : Nat) (row : List Char) :
    readDigits 0 (List.replicate k '0' ++ row) = readDigits 0 row := by
  induction k with
  | zero => rfl
  | succ k ih => exact ih

/-- The parts of positional notation with a point: all are digits, there are as many behind the
point as there are places, and without the point they spell the coefficient. -/
theorem positional_of_places (d : Decimal) (h : d.places ≠ 0) :
    ∃ whole ∈ Token.Shape.row Char.isDigit, ∃ fraction ∈ Token.Shape.row Char.isDigit,
      d.positional = whole ++ '.' :: fraction ∧ fraction.length = d.places ∧
        readDigits 0 (whole ++ fraction) = d.spread.coefficient := by
  generalize hpadded : List.replicate (d.places + 1 - (digits d.spread.coefficient).length) '0' ++
    digits d.spread.coefficient = padded
  have hdigit : padded.all Char.isDigit = true := by
    rw [← hpadded, List.all_append, all_isDigit_digits, List.all_replicate]
    simp
  have hlen : d.places + 1 ≤ padded.length := by
    rw [← hpadded, List.length_append, List.length_replicate]
    omega
  have hsplit : padded.take (padded.length - d.places) ++ padded.drop (padded.length - d.places) =
      padded := List.take_append_drop _ _
  have hall := hdigit
  rw [← hsplit, List.all_append, Bool.and_eq_true] at hall
  refine ⟨_, mem_row.mpr ⟨?_, hall.1⟩, _, mem_row.mpr ⟨?_, hall.2⟩, ?_, ?_, ?_⟩
  · rw [← List.length_pos_iff, List.length_take]
    omega
  · rw [← List.length_pos_iff, List.length_drop]
    omega
  · simp only [positional, if_neg h, hpadded]
  · rw [List.length_drop]
    omega
  · rw [hsplit, ← hpadded, readDigits_replicate_append, readDigits_digits]

theorem ofDigits_eq {whole fraction : List Char} {d : Decimal}
    (hcoefficient : readDigits 0 (whole ++ fraction) = d.coefficient)
    (hexp : d.exponent = -(fraction.length : Int)) : ofDigits whole fraction 0 = d := by
  obtain ⟨coefficient, exponent⟩ := d
  simp only [ofDigits, mk.injEq]
  exact ⟨hcoefficient, by rw [Int.zero_sub]; exact hexp.symm⟩

/-- Positional notation is the text of a number, with the value of its decimal. -/
theorem exists_number (d : Decimal) :
    ∃ n : NumberText, n.IsNumber ∧ n.text = d.positional ∧ n.value = d.spread.toFloat := by
  have hplaces := d.places_spread
  have hnonpos := d.spread_exponent_nonpos
  have hspread : d.spread.exponent = -(d.places : Int) := by
    simp only [places] at hplaces ⊢
    omega
  by_cases h : d.places = 0
  · have hdigits : digits d.spread.coefficient ∈ Token.Shape.row Char.isDigit :=
      mem_row.mpr ⟨Nat.toDigits_ne_nil, all_isDigit_digits _⟩
    have hvalue : ofDigits (digits d.spread.coefficient) [] 0 = d.spread := by
      apply ofDigits_eq
      · rw [List.append_nil, readDigits_digits]
      · rw [hspread, h]
        rfl
    refine ⟨⟨digits d.spread.coefficient, [], []⟩, ⟨hdigits, .inl rfl, .inl rfl⟩, ?_,
      congrArg toFloat hvalue⟩
    simp only [NumberText.text, positional, if_pos h, List.append_nil]
  · obtain ⟨whole, hwhole, fraction, hfraction, htext, hlen, hcoefficient⟩ :=
      d.positional_of_places h
    have hvalue : ofDigits whole fraction 0 = d.spread := by
      apply ofDigits_eq hcoefficient
      rw [hspread, hlen]
    refine ⟨⟨whole, '.' :: fraction, []⟩,
      ⟨hwhole, mem_fraction.mpr (.inr ⟨fraction, rfl, hfraction⟩), .inl rfl⟩, ?_,
      congrArg toFloat hvalue⟩
    rw [htext, NumberText.text, List.append_nil]

/-- Positional notation is scanned to the value of its decimal. -/
theorem kinds_positional (d : Decimal) {rest : List Char} (hrest : Breaks rest) :
    kinds (d.positional ++ rest) = .number d.spread.toFloat :: kinds rest := by
  obtain ⟨n, hn, htext, hvalue⟩ := d.exists_number
  rw [← htext, Token.kinds_number hn hrest, hvalue]

theorem positional_head (d : Decimal) : ∃ c cs, d.positional = c :: cs ∧ c.isDigit = true := by
  obtain ⟨n, hn, htext, -⟩ := d.exists_number
  rw [← htext]
  exact hn.exists_head

end Decimal

namespace Numeral

open Float.Model Float.Model.UnpackedFloat

theorem unpack_zero : (0.0 : Float).toModel.unpack = .zero .positive := rfl

theorem unpack_neg {x : Float} {s : Sign} {m : Nat} {e : Int} {hm : 0 < m}
    (h : x.toModel.unpack = .finite s m e hm) : (-x).toModel.unpack = .finite (-s) m e hm := by
  change (Float.Model.pack x.toModel.unpack.neg).unpack = _
  rw [h]
  exact Binary64.unpack_pack (Binary64.canonical_of_unpack h) (-s)

theorem beq_eq (x y : Float) :
    (x == y) = (UnpackedFloat.compare x.toModel.unpack y.toModel.unpack == some .eq) := rfl

theorem lt_iff (x y : Float) :
    x < y ↔ UnpackedFloat.compare x.toModel.unpack y.toModel.unpack = some .lt := by
  change decide ((UnpackedFloat.compare x.toModel.unpack y.toModel.unpack == some .lt) = true) =
    true ↔ _
  simp

theorem beq_of_unpack {x y : Float} {s : Sign} {m : Nat} {e : Int} {hm : 0 < m}
    (hx : x.toModel.unpack = .finite s m e hm) (hy : y.toModel.unpack = .finite s m e hm) :
    (x == y) = true := by
  rw [beq_eq, hx, hy]
  cases s <;> simp [UnpackedFloat.compare]

section Text

variable {x : Float} {m : Nat} {e : Int} {hm : 0 < m}

theorem isNaN_eq (x : Float) : x.isNaN = x.toModel.unpack.isNaN := rfl

theorem isInf_eq (x : Float) : x.isInf = x.toModel.unpack.isInf := rfl

theorem text_of_zero {s : Sign} (h : x.toModel.unpack = .zero s) : text x = "0" := by
  have hnan : x.isNaN = false := by rw [isNaN_eq, h]; rfl
  have hinf : x.isInf = false := by rw [isInf_eq, h]; rfl
  have hzero : (x == 0.0) = true := by rw [beq_eq, h, unpack_zero]; rfl
  simp only [text, hnan, hinf, hzero, Bool.false_eq_true, if_false, if_true]

/-- The text of a number that is neither zero nor special. -/
theorem text_of_finite {s : Sign} (h : x.toModel.unpack = .finite s m e hm) :
    text x = if x < 0.0 then "-" ++ String.ofList (Decimal.shortest (-x)).positional
      else String.ofList (Decimal.shortest x).positional := by
  have hnan : x.isNaN = false := by rw [isNaN_eq, h]; rfl
  have hinf : x.isInf = false := by rw [isInf_eq, h]; rfl
  have hzero : (x == 0.0) = false := by
    rw [beq_eq, h, unpack_zero]
    cases s <;> rfl
  simp only [text, hnan, hinf, hzero, Bool.false_eq_true, if_false]

theorem text_of_positive (h : x.toModel.unpack = .finite .positive m e hm) :
    text x = String.ofList (Decimal.shortest x).positional := by
  have hlt : ¬ x < 0.0 := by
    rw [lt_iff, h, unpack_zero]
    simp [UnpackedFloat.compare]
  rw [text_of_finite h, if_neg hlt]

theorem text_of_negative (h : x.toModel.unpack = .finite .negative m e hm) :
    text x = "-" ++ String.ofList (Decimal.shortest (-x)).positional := by
  have hlt : x < 0.0 := by
    rw [lt_iff, h, unpack_zero]
    rfl
  rw [text_of_finite h, if_pos hlt]

theorem reads_positive (h : x.toModel.unpack = .finite .positive m e hm) :
    Reads (Decimal.shortest x).positional [.number x] := by
  intro rest hrest
  rw [Decimal.kinds_positional _ hrest, Decimal.toFloat_spread_shortest h]
  rfl

/-- The text of an infinite number. -/
theorem text_of_infinity {s : Sign} (h : x.toModel.unpack = .infinity s) :
    text x = if 0.0 < x then "Infinity" else "-Infinity" := by
  have hnan : x.isNaN = false := by rw [isNaN_eq, h]; rfl
  have hinf : x.isInf = true := by rw [isInf_eq, h]; rfl
  simp only [text, hnan, hinf, Bool.false_eq_true, if_false, if_true]

theorem text_of_positiveInfinity (h : x.toModel.unpack = .infinity .positive) :
    text x = "Infinity" := by
  have hlt : 0.0 < x := by
    rw [lt_iff, h, unpack_zero]
    rfl
  rw [text_of_infinity h, if_pos hlt]

theorem text_of_negativeInfinity (h : x.toModel.unpack = .infinity .negative) :
    text x = "-Infinity" := by
  have hlt : ¬ 0.0 < x := by
    rw [lt_iff, h, unpack_zero]
    simp [UnpackedFloat.compare]
  rw [text_of_infinity h, if_neg hlt]

/-- The kinds of the tokens that the text of a number has, other than for NaN. -/
inductive Spelled (x : Float) : List Token.Kind → Prop where
  | zero {s : Sign} (h : x.toModel.unpack = .zero s) :
      Spelled x [.number (Decimal.mk 0 0).spread.toFloat]
  | positive {m : Nat} {e : Int} {hm : 0 < m} (h : x.toModel.unpack = .finite .positive m e hm) :
      Spelled x [.number x]
  | negative {y : Float} {m : Nat} {e : Int} {hm : 0 < m}
      (h : x.toModel.unpack = .finite .negative m e hm)
      (hy : y.toModel.unpack = .finite .positive m e hm) : Spelled x [.mark .minus, .number y]
  | infinity (h : x.toModel.unpack = .infinity .positive) : Spelled x [.identifier "Infinity"]
  | negativeInfinity (h : x.toModel.unpack = .infinity .negative) :
      Spelled x [.mark .minus, .identifier "Infinity"]

theorem unpack_spread_zero : (Decimal.mk 0 0).spread.toFloat.toModel.unpack = .zero .positive := rfl

/-- A text that does not start with `>` may have a minus sign before it. -/
theorem reads_minus {c : Char} {cs : List Char} {ks : List Token.Kind} (hc : c ≠ '>')
    (h : Reads (c :: cs) ks) : Reads ('-' :: c :: cs) (.mark .minus :: ks) := by
  intro rest hrest
  rw [List.cons_append, List.cons_append, Token.kinds_minus _ hc, ← List.cons_append, h rest hrest]
  rfl

theorem reads_infinity : Reads ('I' :: "nfinity".toList) [.identifier "Infinity"] := by
  have hname : Token.IsName "Infinity" := ⟨⟨'I', _, rfl, rfl, rfl⟩, by decide⟩
  exact fun rest hrest => hname.kinds hrest

theorem exists_spelled (h : x.isNaN = false) :
    ∃ ks, Reads (text x).toList ks ∧ Spelled x ks := by
  cases hx : x.toModel.unpack with
  | notANumber =>
    rw [isNaN_eq, hx] at h
    cases h
  | infinity s =>
    cases s with
    | positive =>
      rw [text_of_positiveInfinity hx]
      exact ⟨_, reads_infinity, .infinity hx⟩
    | negative =>
      rw [text_of_negativeInfinity hx]
      exact ⟨_, reads_minus (c := 'I') (by decide) reads_infinity, .negativeInfinity hx⟩
  | zero s =>
    have hdigit : "0".toList = (Decimal.mk 0 0).positional := by decide
    rw [text_of_zero hx, hdigit]
    exact ⟨_, fun rest hrest => Decimal.kinds_positional _ hrest, .zero hx⟩
  | finite s m e hm =>
    cases s with
    | positive =>
      rw [text_of_positive hx, String.toList_ofList]
      exact ⟨_, reads_positive hx, .positive hx⟩
    | negative =>
      have hneg := unpack_neg hx
      have hreads := reads_positive hneg
      obtain ⟨c, cs, hhead, hc⟩ := (Decimal.shortest (-x)).positional_head
      have hgreater : c ≠ '>' := by
        rintro rfl
        revert hc
        decide
      have hsign : "-".toList = ['-'] := rfl
      rw [hhead] at hreads
      rw [text_of_negative hx, String.toList_append, hsign, String.toList_ofList, hhead,
        List.singleton_append]
      exact ⟨_, reads_minus hgreater hreads, .negative hx hneg⟩

/-- The text of a finite number is scanned to a number equal to it, or to a minus sign and a number
whose negative is equal to it. -/
theorem reads_text (h : x.isFinite = true) :
    ∃ y, (Reads (text x).toList [.number y] ∧ (y == x) = true) ∨
      (Reads (text x).toList [.mark .minus, .number y] ∧ (-y == x) = true) := by
  change x.toModel.unpack.isFinite = true at h
  have hnan : x.isNaN = false := by
    rw [isNaN_eq]
    cases hx : x.toModel.unpack with
    | notANumber => rw [hx] at h; cases h
    | _ => rfl
  obtain ⟨ks, hreads, hspelled⟩ := exists_spelled hnan
  cases hspelled with
  | zero hx =>
    refine ⟨_, .inl ⟨hreads, ?_⟩⟩
    rw [beq_eq, unpack_spread_zero, hx]
    rfl
  | positive hx => exact ⟨x, .inl ⟨hreads, beq_of_unpack hx hx⟩⟩
  | negative hx hy => exact ⟨_, .inr ⟨hreads, beq_of_unpack (unpack_neg hy) hx⟩⟩
  | infinity hx | negativeInfinity hx =>
    rw [hx] at h
    cases h

theorem Spelled.beq {y : Float} {ks : List Token.Kind} (hx : Spelled x ks) (hy : Spelled y ks) :
    (x == y) = true := by
  cases hx with
  | zero hx =>
    cases hy with
    | zero hy =>
      rw [beq_eq, hx, hy]
      rfl
    | positive hy => cases unpack_spread_zero.symm.trans hy
  | positive hx =>
    cases hy with
    | zero hy => cases unpack_spread_zero.symm.trans hx
    | positive hy => exact beq_of_unpack hx hx
  | negative hx hz =>
    cases hy with
    | negative hy hz' =>
      cases hz.symm.trans hz'
      exact beq_of_unpack hx hy
  | infinity hx =>
    cases hy with
    | infinity hy =>
      rw [beq_eq, hx, hy]
      rfl
  | negativeInfinity hx =>
    cases hy with
    | negativeInfinity hy =>
      rw [beq_eq, hx, hy]
      rfl

/-- Numbers with the same text are equal as numbers. -/
theorem beq_of_text_eq {y : Float} (hx : x.isNaN = false) (hy : y.isNaN = false)
    (h : text x = text y) : (x == y) = true := by
  obtain ⟨ks, hreads, hspelled⟩ := exists_spelled hx
  obtain ⟨ks', hreads', hspelled'⟩ := exists_spelled hy
  have hkinds := hreads [] Token.breaks_nil
  rw [h, hreads' [] Token.breaks_nil] at hkinds
  exact hspelled.beq (List.append_cancel_right hkinds ▸ hspelled')

end Text

end Numeral

end Reckoner
