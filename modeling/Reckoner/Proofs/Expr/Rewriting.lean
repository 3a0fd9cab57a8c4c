import Mathlib
import Reckoner.Proofs.Expr.WellFormed

/-! # Expressions and their rewritten forms

An expression beside itself, or beside itself with a name replaced.  To go through the parts of both
at once, it is enough to know that the parts are in the same relation; where the name may be replaced
at all is left open.
-/
namespace Reckoner.Expr

/-- The same expression, or, where that is allowed, the expression with its free symbols `x` replaced
by `r`. -/
def Rewritten (allowed : Expr → Prop) (x : String) (r e e' : Expr) : Prop :=
  e' = e ∨ allowed e ∧ e' = substitute x r e

inductive FunctionFree : Expr → Prop where
  | number (x : Float) : FunctionFree (.number x)
  | boolean (b : Bool) : FunctionFree (.boolean b)
  | symbol (n : String) : FunctionFree (.symbol n)
  | binary {l r : Expr} (op : Operator) (hl : FunctionFree l) (hr : FunctionFree r) :
      FunctionFree (.binary op l r)
  | parameter (p : Parameter) : FunctionFree (.parameter p)
  | call {args : List Expr} (f : String) (h : ∀ a ∈ args, FunctionFree a) :
      FunctionFree (.call f args)
  | native (code : NativeCode) : FunctionFree (.native code)

namespace Rewritten

variable {allowed : Expr → Prop} {x : String} {r e' : Expr}

theorem refl (allowed : Expr → Prop) (x : String) (r e : Expr) : Rewritten allowed x r e e :=
  .inl rfl

theorem symbol {n : String} (h : Rewritten allowed x r (.symbol n) e') :
    e' = .symbol n ∨ allowed (.symbol n) ∧ n = x ∧ e' = r := by
  rcases h with rfl | ⟨hallowed, rfl⟩
  · exact .inl rfl
  · rw [substitute_symbol]
    split
    · exact .inr ⟨hallowed, ‹_›, rfl⟩
    · exact .inl rfl

theorem binary {op : Operator} {a b : Expr} (h : Rewritten allowed x r (.binary op a b) e')
    (hparts : allowed (.binary op a b) → allowed a ∧ allowed b) :
    ∃ a' b', e' = .binary op a' b' ∧ Rewritten allowed x r a a' ∧ Rewritten allowed x r b b' := by
  rcases h with rfl | ⟨hallowed, rfl⟩
  · exact ⟨a, b, rfl, .inl rfl, .inl rfl⟩
  · obtain ⟨ha, hb⟩ := hparts hallowed
    exact ⟨_, _, substitute_binary x r op a b, .inr ⟨ha, rfl⟩, .inr ⟨hb, rfl⟩⟩

theorem function {m : Nat} {ps : List Parameter} {b : Expr}
    (h : Rewritten allowed x r (.function m ps b) e') {inside : Expr → Prop}
    (hbody : allowed (.function m ps b) → declares ps x = false → inside b) :
    ∃ b', e' = .function m ps b' ∧ Rewritten inside x r b b' := by
  rcases h with rfl | ⟨hallowed, rfl⟩
  · exact ⟨b, rfl, .inl rfl⟩
  · rw [substitute_function]
    split
    · exact ⟨b, rfl, .inl rfl⟩
    · rename_i hps
      exact ⟨_, rfl, .inr ⟨hbody hallowed (Bool.eq_false_iff.mpr hps), rfl⟩⟩

theorem call {f : String} {args : List Expr} (h : Rewritten allowed x r (.call f args) e')
    (hparts : allowed (.call f args) → ∀ a ∈ args, allowed a) :
    ∃ args', e' = .call f args' ∧ List.Forall₂ (Rewritten allowed x r) args args' := by
  rcases h with rfl | ⟨hallowed, rfl⟩
  · exact ⟨args, rfl, List.forall₂_same.mpr fun a _ => .inl rfl⟩
  · refine ⟨_, substitute_call x r f args, List.forall₂_map_right_iff.mpr ?_⟩
    exact List.forall₂_same.mpr fun a ha => .inr ⟨hparts hallowed a ha, rfl⟩

end Rewritten

end Reckoner.Expr
