import Mathlib
import Reckoner.Expr.Substitution
import Reckoner.Prelude
import Reckoner.Proofs.Grammar.Soundness

/-! # Well-formed expressions

Expressions that a session can bind have no declared parameters in them, their functions take
numbers and booleans, and host code is only ever the whole body of a function whose parameters it
reads.  What is parsed is well formed, and substitution keeps it so.
-/
namespace Reckoner

/-- The types that a parameter can be declared with. -/
def Ty.Simple (ty : Ty) : Prop :=
  ty = .number ∨ ty = .boolean

/-- Host code that can be the body of a function with some parameters: it reads exactly these, they
are numbers, and it stands for a function of as many numbers. -/
structure NativeCode.Fits (code : NativeCode) (params : List Parameter) : Prop where
  names : code.params = params.map (·.name)
  numbers : ∀ p ∈ params, p.ty = .number
  result : code.result = .number
  computes : ∃ f, Prelude.mathFunction? code.host = some f ∧ f.arity = params.length

namespace Expr

/-- Expressions that a session can bind. -/
inductive WellFormed : Expr → Prop where
  | number (x : Float) : WellFormed (.number x)
  | boolean (b : Bool) : WellFormed (.boolean b)
  | symbol (n : String) : WellFormed (.symbol n)
  | binary {l r : Expr} (op : Operator) (hl : WellFormed l) (hr : WellFormed r) :
      WellFormed (.binary op l r)
  | function {ps : List Parameter} {b : Expr} (m : Nat) (hps : ∀ p ∈ ps, p.ty.Simple)
      (hb : WellFormed b) : WellFormed (.function m ps b)
  | native {ps : List Parameter} {code : NativeCode} (m : Nat) (h : code.Fits ps) :
      WellFormed (.function m ps (.native code))
  | call {args : List Expr} (f : String) (h : ∀ a ∈ args, WellFormed a) : WellFormed (.call f args)

section Substitution

variable (name : String) (r : Expr)

theorem substitute_symbol (n : String) :
    substitute name r (.symbol n) = if n = name then r else .symbol n := by
  simp only [substitute, replace?]
  split <;> rfl

theorem substitute_binary (op : Operator) (a b : Expr) :
    substitute name r (.binary op a b) =
      .binary op (substitute name r a) (substitute name r b) := by
  simp only [substitute]
  rw [replace?]
  cases replace? name r a <;> cases replace? name r b <;> rfl

theorem substitute_function (m : Nat) (ps : List Parameter) (b : Expr) :
    substitute name r (.function m ps b) =
      if declares ps name then .function m ps b else .function m ps (substitute name r b) := by
  simp only [substitute]
  rw [replace?]
  split
  · rfl
  · cases replace? name r b <;> rfl

/-- Substitution in a list of expressions is substitution in each of them. -/
theorem replaceAll?_getD (es : List Expr) :
    (replaceAll? name r es).getD es = es.map (substitute name r) := by
  induction es with
  | nil => rfl
  | cons e es ih =>
    rw [List.map_cons, ← ih, substitute, replaceAll?]
    cases replace? name r e <;> cases replaceAll? name r es <;> rfl

theorem substitute_call (f : String) (args : List Expr) :
    substitute name r (.call f args) = .call f (args.map (substitute name r)) := by
  rw [← replaceAll?_getD]
  simp only [substitute]
  rw [replace?]
  cases replaceAll? name r args <;> rfl

end Substitution

/-- Substitution of a well-formed expression keeps an expression well formed. -/
theorem WellFormed.substitute {name : String} {r e : Expr} (hr : r.WellFormed)
    (he : e.WellFormed) : (substitute name r e).WellFormed := by
  induction he with
  | number x => exact .number x
  | boolean b => exact .boolean b
  | symbol n =>
    rw [substitute_symbol]
    split
    · exact hr
    · exact .symbol n
  | binary op _ _ ihl ihr =>
    rw [substitute_binary]
    exact .binary op ihl ihr
  | function m hps hb ih =>
    rw [substitute_function]
    split
    · exact .function m hps hb
    · exact .function m hps ih
  | native m h =>
    rw [substitute_function]
    split
    · exact .native m h
    · exact .native m h
  | call f _ ih =>
    rw [substitute_call]
    refine .call f fun a ha => ?_
    obtain ⟨b, hb, rfl⟩ := List.mem_map.mp ha
    exact ih b hb

end Expr

namespace Grammar

open Reckoner.Expr (WellFormed)
open Token (Kind)

theorem TypeName.simple {ks : List Kind} {ty : Ty} (h : TypeName ks ty) : ty.Simple := by
  cases h with
  | number => exact .inl rfl
  | boolean => exact .inr rfl

theorem Declaration.simple {ks : List Kind} {p : Parameter} (h : Declaration ks p) :
    p.ty.Simple := by
  cases h with
  | typed n h => exact h.simple

/-- What holds of every item of a list in commas holds of every member of what it denotes. -/
theorem Commas.forall_mem {α : Type} {item : List Kind → α → Prop} {P : α → Prop}
    (hitem : ∀ ks a, item ks a → P a) {ks : List Kind} {as : List α} (h : Commas item ks as) :
    ∀ a ∈ as, P a := by
  induction h with
  | one h => simpa using hitem _ _ h
  | more h _ ih => simpa using ⟨hitem _ _ h, ih⟩

theorem Listed.forall_mem {α : Type} {item : List Kind → α → Prop} {P : α → Prop}
    (hitem : ∀ ks a, item ks a → P a) {ks : List Kind} {as : List α} (h : Listed item ks as) :
    ∀ a ∈ as, P a := by
  cases h with
  | none => simp
  | some h => exact h.forall_mem hitem

theorem wellFormed_chained {first : Expr} {links : List (Operator × Expr)}
    (hfirst : first.WellFormed) (hlinks : ∀ link ∈ links, link.2.WellFormed) :
    (chained first links).WellFormed := by
  induction links generalizing first with
  | nil => exact hfirst
  | cons link links ih =>
    apply ih (.binary link.1 hfirst (hlinks link List.mem_cons_self))
    exact fun l hl => hlinks l (List.mem_cons_of_mem _ hl)

mutual

/-- A phrase denotes a well-formed expression. -/
theorem Phrase.wellFormed : ∀ {f : Form} {ks : List Kind} {e : Expr}, Phrase f ks e →
    e.WellFormed
  | _, _, _, .function hps he =>
    .function 0 (hps.forall_mem fun _ _ h => h.simple) he.wellFormed
  | _, _, _, .operation h => h.wellFormed
  | _, _, _, .chain _ h hs => wellFormed_chained h.wellFormed hs.wellFormed
  | _, _, _, .negativeNumber _ => .number _
  | _, _, _, .negative h _ => .binary .subtract (.number _) h.wellFormed
  | _, _, _, .plain h => h.wellFormed
  | _, _, _, .number x => .number x
  | _, _, _, .true => .boolean _
  | _, _, _, .false => .boolean _
  | _, _, _, .last => .symbol _
  | _, _, _, .name n => .symbol n
  | _, _, _, .call f h => .call f (wellFormed_of_listed h)
  | _, _, _, .parenthesized h => h.wellFormed

theorem Tail.wellFormed : ∀ {f : Form} {ks : List Kind} {links : List (Operator × Expr)},
    Tail f ks links → ∀ link ∈ links, link.2.WellFormed
  | _, _, _, .nil _ => by simp
  | _, _, _, .cons _ _ h hs => by
    simpa using ⟨h.wellFormed, fun op e => hs.wellFormed (op, e)⟩

theorem wellFormed_of_listed : ∀ {ks : List Kind} {args : List Expr},
    Listed (Phrase .expression) ks args → ∀ a ∈ args, a.WellFormed
  | _, _, .none => by simp
  | _, _, .some h => wellFormed_of_commas h

theorem wellFormed_of_commas : ∀ {ks : List Kind} {args : List Expr},
    Commas (Phrase .expression) ks args → ∀ a ∈ args, a.WellFormed
  | _, _, .one h => by simpa using h.wellFormed
  | _, _, .more h hs => by simpa using ⟨h.wellFormed, wellFormed_of_commas hs⟩

end

/-- The expression of a sentence is well formed. -/
theorem Sentence.wellFormed {ks : List Kind} {c : Command} (h : Sentence ks c) {e : Expr}
    (he : c.expr? = some e) : e.WellFormed := by
  cases h with
  | define _ h => cases he; exact h.wellFormed
  | explain h => cases he; exact h.wellFormed
  | symbols => cases he
  | exit => cases he
  | quit => cases he
  | expression h => cases he; exact h.wellFormed

end Grammar

/-- What is parsed is well formed. -/
theorem Command.wellFormed_of_parse {line : String} {c : Command} {e : Expr}
    (h : Command.parse line = .ok c) (he : c.expr? = some e) : e.WellFormed :=
  (Grammar.sentence_of_parseTokens (mapError_eq_ok_iff.mp h)).wellFormed he

end Reckoner
