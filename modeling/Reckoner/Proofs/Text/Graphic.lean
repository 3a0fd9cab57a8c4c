import Mathlib
import Reckoner.Eval.Error
import Reckoner.Proofs.Eval.Host
import Reckoner.Proofs.Numeral
import Reckoner.Session.Listing

/-! # Texts without control characters

The texts that outputs are put together from have no control characters in them, no line end and no
escape among these, whatever numbers, types and names they tell of, as long as the names have none.
-/
namespace Reckoner

namespace Text

def Graphic (s : String) : Prop :=
  ∀ c ∈ s.toList, 0x20 ≤ c.toNat

@[simp] theorem graphic_append {s t : String} : Graphic (s ++ t) ↔ Graphic s ∧ Graphic t := by
  simp only [Graphic, String.toList_append, List.forall_mem_append]

@[simp] theorem graphic_ofList {cs : List Char} :
    Graphic (String.ofList cs) ↔ ∀ c ∈ cs, 0x20 ≤ c.toNat := by
  simp only [Graphic, String.toList_ofList]

/-- A literal is looked through character by character. -/
theorem Graphic.literal {cs : List Char} (h : cs.all (fun c => Nat.ble 0x20 c.toNat) = true) :
    Graphic (String.ofList cs) :=
  graphic_ofList.mpr fun c hc => Nat.le_of_ble_eq_true (List.all_eq_true.mp h c hc)

theorem toNat_of_isDigit {c : Char} (h : c.isDigit = true) : 0x20 ≤ c.toNat := by
  simp only [Char.isDigit, UInt32.le_iff_toNat_le, Bool.and_eq_true, decide_eq_true_eq,
    Char.toNat_val, Char.reduceToNat] at h
  omega

@[simp] theorem graphic_toString (n : Nat) : Graphic (toString n) := by
  rw [Nat.toString_eq_ofList_toDigits, graphic_ofList]
  exact fun c hc => toNat_of_isDigit (Nat.isDigit_of_mem_toDigits (by decide) (by decide) hc)

end Text

open Text (Graphic)

theorem Token.toNat_of_isWordPart {c : Char} (h : isWordPart c = true) : 0x20 ≤ c.toNat := by
  simp only [isWordPart, Char.isAlphanum, Char.isAlpha, Char.isUpper, Char.isLower,
    Char.isDigit, UInt32.le_iff_toNat_le, ge_iff_le, Bool.or_eq_true, Bool.and_eq_true,
    decide_eq_true_eq, beq_iff_eq, Char.toNat_val, Char.reduceToNat] at h
  rcases h with h | rfl
  · omega
  · decide

theorem Decimal.graphic_positional (d : Decimal) : ∀ c ∈ d.positional, 0x20 ≤ c.toNat := by
  have hdigits : ∀ c ∈ digits d.spread.coefficient, 0x20 ≤ c.toNat := fun c hc =>
    Text.toNat_of_isDigit (List.all_eq_true.mp (all_isDigit_digits _) c hc)
  unfold positional
  dsimp only
  split
  · exact hdigits
  · -- Zeros may stand before the digits, and a point stands between two parts of the whole row.
    have hpadded : ∀ c ∈ List.replicate (d.places + 1 - (digits d.spread.coefficient).length) '0' ++
        digits d.spread.coefficient, 0x20 ≤ c.toNat := by
      rw [List.forall_mem_append]
      refine ⟨fun c hc => ?_, hdigits⟩
      rw [List.eq_of_mem_replicate hc]
      decide
    rw [List.forall_mem_append, List.forall_mem_cons]
    exact ⟨fun c hc => hpadded c (List.mem_of_mem_take hc), by decide,
      fun c hc => hpadded c (List.mem_of_mem_drop hc)⟩

@[simp] theorem Numeral.graphic_text (x : Float) : Graphic (text x) := by
  unfold text
  split
  · exact .literal rfl
  · split
    · split <;> exact .literal rfl
    · split
      · exact .literal rfl
      · split
        · exact Text.graphic_append.mpr
            ⟨.literal rfl, Text.graphic_ofList.mpr (Decimal.graphic_positional _)⟩
        · exact Text.graphic_ofList.mpr (Decimal.graphic_positional _)

@[simp] theorem Expr.graphic_booleanText (b : Bool) : Graphic (booleanText b) := by
  cases b <;> exact .literal rfl

namespace Ty

mutual

theorem graphic_caption : ∀ ty : Ty, Graphic (caption ty)
  | number => by rw [caption]; exact .literal rfl
  | boolean => by rw [caption]; exact .literal rfl
  | function ps r => by
    rw [caption]
    simp only [Text.graphic_append]
    exact ⟨⟨⟨⟨.literal rfl, graphic_captions ps⟩, .literal rfl⟩, graphic_caption r⟩, .literal rfl⟩

theorem graphic_captions : ∀ tys : List Ty, Graphic (captions tys)
  | [] => by rw [captions]; exact .literal rfl
  | [p] => by rw [captions]; exact graphic_caption p
  | p :: q :: ps => by
    simp only [captions, Text.graphic_append]
    exact ⟨⟨graphic_caption p, .literal rfl⟩, graphic_captions (q :: ps)⟩

end

attribute [simp] graphic_caption

@[simp] theorem graphic_name (shape : Shape) : Graphic shape.name := by
  cases shape <;> exact .literal rfl

end Ty

@[simp] theorem Value.graphic_describe (v : Value) : Graphic v.describe := by
  cases v with
  | number x => exact Text.graphic_append.mpr ⟨.literal rfl, Numeral.graphic_text x⟩
  | boolean b => exact Text.graphic_append.mpr ⟨.literal rfl, Expr.graphic_booleanText b⟩
  | function c =>
    simp only [describe]
    split
    · exact Ty.graphic_caption _
    · exact Ty.graphic_name _

@[simp] theorem Diagnostic.Code.graphic_text (c : Code) : Graphic c.text := by
  cases c <;> exact .literal rfl

theorem graphic_arityText {name : String} (h : Graphic name) (expected actual : Nat) :
    Graphic (arityText name expected actual) := by
  simp only [arityText, Text.graphic_append, and_assoc]
  refine ⟨.literal rfl, h, .literal rfl, Text.graphic_toString _, .literal rfl, ?_,
    .literal rfl, Text.graphic_toString _⟩
  split <;> exact .literal rfl

theorem MathFunction.graphic_of_apply {f : MathFunction} {args : List Value} {message : String}
    (h : f.apply args = .error message) : Graphic message := by
  have hcount : Graphic ("expected " ++ toString f.arity ++ " arguments, got " ++
      toString args.length) := by
    simp only [Text.graphic_append]
    exact ⟨⟨⟨.literal rfl, Text.graphic_toString _⟩, .literal rfl⟩, Text.graphic_toString _⟩
  unfold apply at h
  dsimp only at h
  split at h
  · split at h
    · cases h
      exact Text.graphic_append.mpr ⟨.literal rfl, Ty.graphic_name _⟩
    · rename_i xs _
      cases hc : f.compute? xs with
      | none => rw [hc] at h; cases h; exact hcount
      | some x => rw [hc] at h; cases h
  · cases h
    exact hcount

/-- What a host function of a session has to say when it fails. -/
theorem Prelude.graphic_of_run {f : HostFunction} {args : List Value} {message : String}
    (h : host.run f args = .error message) : Graphic message := by
  rw [run_eq] at h
  cases hf : mathFunction? f with
  | none =>
    rw [hf] at h
    cases h
    exact .literal rfl
  | some g =>
    rw [hf] at h
    exact MathFunction.graphic_of_apply h

end Reckoner
