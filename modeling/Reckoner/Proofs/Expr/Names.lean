import Mathlib
import Reckoner.Proofs.Expr.WellFormed

/-! # Names in expressions

An expression uses a name where the name stands as a symbol, outside the function literals that
declare it.  A callee does not count: substitution leaves it alone.  All the names of an expression, by
contrast, are those under which it can have anything looked up, wherever in it they stand.
-/
namespace Reckoner.Expr

/-- Expressions in which the symbol `x` occurs free. -/
inductive Uses (x : String) : Expr → Prop where
  | symbol : Uses x (.symbol x)
  | left {l : Expr} (op : Operator) (r : Expr) (h : Uses x l) : Uses x (.binary op l r)
  | right {r : Expr} (op : Operator) (l : Expr) (h : Uses x r) : Uses x (.binary op l r)
  | body {ps : List Parameter} {b : Expr} (m : Nat) (hps : declares ps x = false) (h : Uses x b) :
      Uses x (.function m ps b)
  | argument {a : Expr} {args : List Expr} (f : String) (ha : a ∈ args) (h : Uses x a) :
      Uses x (.call f args)

@[simp] theorem uses_symbol_iff {x n : String} : (symbol n).Uses x ↔ n = x := by
  constructor
  · intro h
    cases h
    rfl
  · rintro rfl
    exact .symbol

theorem mentionsAny_eq_true_iff {x : String} {es : List Expr} :
    mentionsAny x es = true ↔ ∃ e ∈ es, mentions x e = true := by
  induction es with
  | nil => simp [mentionsAny]
  | cons e es ih => simp [mentionsAny, ih]

namespace Uses

variable {x : String} {e r : Expr}

/-- What an expression uses it mentions. -/
theorem mentions (h : e.Uses x) : mentions x e = true := by
  induction h with
  | symbol => simp [Expr.mentions]
  | left op r _ ih => simp [Expr.mentions, ih]
  | right op l _ ih => simp [Expr.mentions, ih]
  | body m hps _ ih => simp [Expr.mentions, hps, ih]
  | argument f ha _ ih =>
    have hany := mentionsAny_eq_true_iff.mpr ⟨_, ha, ih⟩
    simp [Expr.mentions, hany]

/-- Where a name has been replaced, it is used only in what has replaced it. -/
theorem of_substitute (he : e.WellFormed) (h : (substitute x r e).Uses x) : r.Uses x := by
  induction he with
  | number y => cases h
  | boolean b => cases h
  | symbol n =>
    rw [substitute_symbol] at h
    split at h
    · exact h
    · rename_i hn
      exact absurd (uses_symbol_iff.mp h) hn
  | binary op _ _ ihl ihr =>
    rw [substitute_binary] at h
    cases h with
    | left _ _ h => exact ihl h
    | right _ _ h => exact ihr h
  | function m _ _ ih =>
    rw [substitute_function] at h
    split at h
    · rename_i hdeclared
      cases h with
      | body _ hps _ => simp [hdeclared] at hps
    · cases h with
      | body _ _ h => exact ih h
  | native m _ =>
    rw [substitute_function] at h
    split at h
    · cases h with
      | body _ _ h => cases h
    · cases h with
      | body _ _ h => cases h
  | call f _ ih =>
    rw [substitute_call] at h
    cases h with
    | argument _ hmem h =>
      obtain ⟨a, ha, rfl⟩ := List.mem_map.mp hmem
      exact ih a ha h

end Uses

mutual

/-- The names that stand in an expression as a symbol, as a callee or as what host code reads. -/
def names : Expr → List String
  | symbol n => [n]
  | binary _ l r => names l ++ names r
  | function _ _ b => names b
  | call f args => f :: namesAll args
  | native code => code.params
  | _ => []

def namesAll : List Expr → List String
  | [] => []
  | e :: es => names e ++ namesAll es

end

theorem mem_namesAll {n : String} {es : List Expr} : n ∈ namesAll es ↔ ∃ e ∈ es, n ∈ e.names := by
  induction es with
  | nil => simp [namesAll]
  | cons e es ih => simp [namesAll, ih]

def Within (N : Set String) (e : Expr) : Prop :=
  ∀ n ∈ e.names, n ∈ N

section Within

variable {N : Set String}

theorem within_univ (e : Expr) : e.Within Set.univ :=
  fun _ _ => trivial

@[simp] theorem within_symbol {n : String} : (symbol n).Within N ↔ n ∈ N := by
  simp [Within, names]

@[simp] theorem within_binary {op : Operator} {l r : Expr} :
    (binary op l r).Within N ↔ l.Within N ∧ r.Within N := by
  simp [Within, names, or_imp, forall_and]

@[simp] theorem within_function {m : Nat} {ps : List Parameter} {b : Expr} :
    (function m ps b).Within N ↔ b.Within N := by
  simp [Within, names]

@[simp] theorem within_call {f : String} {args : List Expr} :
    (call f args).Within N ↔ f ∈ N ∧ ∀ a ∈ args, a.Within N := by
  simp only [Within, names, List.forall_mem_cons, mem_namesAll]
  exact and_congr_right fun _ => ⟨fun h a ha n hn => h n ⟨a, ha, hn⟩, fun h n ⟨a, ha, hn⟩ => h a ha n hn⟩

theorem within_of_names_eq_nil {e : Expr} (h : e.names = []) : e.Within N := by
  simp [Within, h]

end Within

/-- Expressions in which every name has a property: those that stand in it as symbols and callees, those
of parameters, and those of host code. -/
inductive Named (P : String → Prop) : Expr → Prop where
  | number (x : Float) : Named P (.number x)
  | boolean (b : Bool) : Named P (.boolean b)
  | symbol {n : String} (h : P n) : Named P (.symbol n)
  | binary {l r : Expr} (op : Operator) (hl : Named P l) (hr : Named P r) :
      Named P (.binary op l r)
  | parameter {p : Parameter} (h : P p.name) : Named P (.parameter p)
  | function {ps : List Parameter} {b : Expr} (m : Nat) (hps : ∀ p ∈ ps, P p.name)
      (hb : Named P b) : Named P (.function m ps b)
  | call {f : String} {args : List Expr} (hf : P f) (hargs : ∀ a ∈ args, Named P a) :
      Named P (.call f args)
  | native {code : NativeCode} (hname : P code.name) (hparams : ∀ n ∈ code.params, P n) :
      Named P (.native code)

/-- Substitution brings no names but those of what it puts in. -/
theorem Named.substitute {P : String → Prop} {name : String} {r e : Expr} (hr : r.Named P)
    (he : e.Named P) : (substitute name r e).Named P := by
  induction he with
  | number x => exact .number x
  | boolean b => exact .boolean b
  | symbol h =>
    rw [substitute_symbol]
    split
    · exact hr
    · exact .symbol h
  | binary op _ _ ihl ihr =>
    rw [substitute_binary]
    exact .binary op ihl ihr
  | parameter h => exact .parameter h
  | function m hps hb ih =>
    rw [substitute_function]
    split
    · exact .function m hps hb
    · exact .function m hps ih
  | call hf _ ih =>
    rw [substitute_call]
    refine .call hf fun a ha => ?_
    obtain ⟨b, hb, rfl⟩ := List.mem_map.mp ha
    exact ih b hb
  | native hname hparams => exact .native hname hparams

end Reckoner.Expr
