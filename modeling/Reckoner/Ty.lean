import Reckoner.Operator

/-! # Types

A type is `Number`, `Boolean` or a function type.  Operators and calls take numbers and booleans
only, so the rules of compatibility below never hold of a function type.
-/
namespace Reckoner

inductive Ty where
  | number
  | boolean
  | function (params : List Ty) (result : Ty)
deriving Repr

namespace Ty

mutual

def beq : Ty → Ty → Bool
  | number, number => true
  | boolean, boolean => true
  | function ps r, function qs s => beqAll ps qs && beq r s
  | _, _ => false

def beqAll : List Ty → List Ty → Bool
  | [], [] => true
  | p :: ps, q :: qs => beq p q && beqAll ps qs
  | _, _ => false

end

mutual

theorem beq_iff_eq : ∀ a b : Ty, beq a b = true ↔ a = b
  | number, b => by cases b <;> simp [beq]
  | boolean, b => by cases b <;> simp [beq]
  | function ps r, b => by
    cases b with
    | number => simp [beq]
    | boolean => simp [beq]
    | function qs s => simp [beq, beqAll_iff_eq ps qs, beq_iff_eq r s]

theorem beqAll_iff_eq : ∀ ps qs : List Ty, beqAll ps qs = true ↔ ps = qs
  | [], qs => by cases qs <;> simp [beqAll]
  | p :: ps, qs => by
    cases qs with
    | nil => simp [beqAll]
    | cons q qs => simp [beqAll, beq_iff_eq p q, beqAll_iff_eq ps qs]

end

instance : DecidableEq Ty :=
  fun a b => decidable_of_iff _ (beq_iff_eq a b)

mutual

/-- The caption of a type: `Number`, `Boolean` or `Function[(T1, T2) -> R]`. -/
def caption : Ty → String
  | number => "Number"
  | boolean => "Boolean"
  | function ps r => "Function[(" ++ captions ps ++ ") -> " ++ caption r ++ "]"

def captions : List Ty → String
  | [] => ""
  | [p] => caption p
  | p :: ps => caption p ++ ", " ++ captions ps

end

/-- The parameter and result types of a function as text: `(T1, T2) -> R`. -/
def signatureText (params : List Ty) (result : Ty) : String :=
  "(" ++ captions params ++ ") -> " ++ caption result

theorem caption_function (params : List Ty) (result : Ty) :
    caption (function params result) = "Function[" ++ signatureText params result ++ "]" := by
  simp only [caption, signatureText]
  apply String.toList_inj.mp
  simp [String.toList_append]

/-- The outermost form of a type or a value. -/
inductive Shape where
  | number
  | boolean
  | function
deriving DecidableEq, Repr

def Shape.name : Shape → String
  | number => "Number"
  | boolean => "Boolean"
  | function => "Function"

def shape : Ty → Shape
  | number => .number
  | boolean => .boolean
  | function _ _ => .function

/-- Operands of `==` and `!=`: two numbers or two booleans. -/
def equalityCompatible : Ty → Ty → Bool
  | number, number => true
  | boolean, boolean => true
  | _, _ => false

/-- Operands of an order comparison: two numbers. -/
def comparisonCompatible : Ty → Ty → Bool
  | number, number => true
  | _, _ => false

/-- Operands of arithmetic: two numbers. -/
def arithmeticCompatible : Ty → Ty → Bool
  | number, number => true
  | _, _ => false

/-- The operand rule of a category of operators. -/
def compatibleFor : Operator.Category → Ty → Ty → Bool
  | .equality => equalityCompatible
  | .comparison => comparisonCompatible
  | .arithmetic => arithmeticCompatible

/-- An argument fits a parameter under the same rule as the operands of an equality. -/
def compatible (param arg : Ty) : Bool :=
  equalityCompatible param arg

/-- The type of a binary operation whose operands are compatible: that of its left operand,
comparisons included. -/
def combine (left _right : Ty) : Ty :=
  left

/-- Compatible types are equal, and are not function types. -/
theorem compatible_iff {a b : Ty} :
    compatible a b = true ↔ a = b ∧ (a = number ∨ a = boolean) := by
  cases a <;> cases b <;> simp [compatible, equalityCompatible]

/-- Operands that any category accepts would also pass as arguments for each other. -/
theorem compatible_of_compatibleFor {c : Operator.Category} {a b : Ty}
    (h : compatibleFor c a b = true) : compatible a b = true := by
  cases c <;> cases a <;> cases b <;>
    simp_all [compatibleFor, comparisonCompatible, arithmeticCompatible, equalityCompatible,
      compatible]

end Ty

end Reckoner
