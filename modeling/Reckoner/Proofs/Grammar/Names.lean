import Mathlib
import Reckoner.Proofs.Expr.Names

/-! # The names in what is parsed

Every name in a parsed expression is an identifier of its line, or the name of the last result.
-/
namespace Reckoner

/-- A token whose name has a property, if it stands for a name. -/
def Token.Kind.Named (P : String → Prop) : Token.Kind → Prop
  | identifier n => P n
  | mark .hash => P lastResult
  | _ => True

namespace Grammar

open Token (Kind)

variable {P : String → Prop}

theorem Declaration.named {ks : List Kind} {p : Parameter} (h : Declaration ks p)
    (hks : ∀ k ∈ ks, k.Named P) : P p.name := by
  cases h with
  | typed n _ => exact hks (.identifier n) List.mem_cons_self

/-- What holds of the items of a list in commas, as long as it holds of their tokens, holds of every
member of what it denotes. -/
theorem Commas.forall_mem_of_tokens {α : Type} {item : List Kind → α → Prop} {Q : α → Prop}
    {R : Kind → Prop} (hitem : ∀ ks a, item ks a → (∀ k ∈ ks, R k) → Q a) {ks : List Kind}
    {as : List α} (h : Commas item ks as) (hks : ∀ k ∈ ks, R k) : ∀ a ∈ as, Q a := by
  induction h with
  | one h => simpa using hitem _ _ h hks
  | more h _ ih =>
    obtain ⟨hfront, hback⟩ := List.forall_mem_append.mp hks
    simpa using ⟨hitem _ _ h hfront, ih (List.forall_mem_cons.mp hback).2⟩

theorem Listed.forall_mem_of_tokens {α : Type} {item : List Kind → α → Prop} {Q : α → Prop}
    {R : Kind → Prop} (hitem : ∀ ks a, item ks a → (∀ k ∈ ks, R k) → Q a) {ks : List Kind}
    {as : List α} (h : Listed item ks as) (hks : ∀ k ∈ ks, R k) : ∀ a ∈ as, Q a := by
  cases h with
  | none => simp
  | some h => exact h.forall_mem_of_tokens hitem hks

theorem named_chained {first : Expr} {links : List (Operator × Expr)} (hfirst : first.Named P)
    (hlinks : ∀ link ∈ links, link.2.Named P) : (chained first links).Named P := by
  induction links generalizing first with
  | nil => exact hfirst
  | cons link links ih =>
    obtain ⟨hlink, hlinks⟩ := List.forall_mem_cons.mp hlinks
    exact ih (.binary link.1 hfirst hlink) hlinks

mutual

/-- A phrase denotes an expression whose names are its identifiers. -/
theorem Phrase.named : ∀ {f : Form} {ks : List Kind} {e : Expr}, Phrase f ks e →
    (∀ k ∈ ks, k.Named P) → e.Named P
  | _, _, _, .function hps he, hks => by
    simp only [List.forall_mem_cons, List.forall_mem_append] at hks
    exact .function 0 (hps.forall_mem_of_tokens (fun _ _ h => h.named) hks.2.1)
      (he.named hks.2.2.2.2)
  | _, _, _, .operation h, hks => h.named hks
  | _, _, _, .chain _ h hs, hks =>
    named_chained (h.named (List.forall_mem_append.mp hks).1)
      (hs.named (List.forall_mem_append.mp hks).2)
  | _, _, _, .negativeNumber _, _ => .number _
  | _, _, _, .negative h _, hks =>
    .binary .subtract (.number _) (h.named (List.forall_mem_cons.mp hks).2)
  | _, _, _, .plain h, hks => h.named hks
  | _, _, _, .number x, _ => .number x
  | _, _, _, .true, _ => .boolean _
  | _, _, _, .false, _ => .boolean _
  | _, _, _, .last, hks => .symbol (hks (.mark .hash) List.mem_cons_self)
  | _, _, _, .name n, hks => .symbol (hks (.identifier n) List.mem_cons_self)
  | _, _, _, .call f h, hks => by
    simp only [List.forall_mem_cons, List.forall_mem_append] at hks
    exact .call hks.1 (named_of_listed h hks.2.2.1)
  | _, _, _, .parenthesized h, hks => by
    simp only [List.forall_mem_cons, List.forall_mem_append] at hks
    exact h.named hks.2.1

theorem Tail.named : ∀ {f : Form} {ks : List Kind} {links : List (Operator × Expr)},
    Tail f ks links → (∀ k ∈ ks, k.Named P) → ∀ link ∈ links, link.2.Named P
  | _, _, _, .nil _, _ => by simp
  | _, _, _, .cons _ _ h hs, hks => by
    simp only [List.forall_mem_cons, List.forall_mem_append] at hks
    exact List.forall_mem_cons.mpr ⟨h.named hks.2.1, hs.named hks.2.2⟩

theorem named_of_listed : ∀ {ks : List Kind} {args : List Expr},
    Listed (Phrase .expression) ks args → (∀ k ∈ ks, k.Named P) → ∀ a ∈ args, a.Named P
  | _, _, .none, _ => by simp
  | _, _, .some h, hks => named_of_commas h hks

theorem named_of_commas : ∀ {ks : List Kind} {args : List Expr},
    Commas (Phrase .expression) ks args → (∀ k ∈ ks, k.Named P) → ∀ a ∈ args, a.Named P
  | _, _, .one h, hks => by simpa using h.named hks
  | _, _, .more h hs, hks => by
    simp only [List.forall_mem_cons, List.forall_mem_append] at hks
    exact List.forall_mem_cons.mpr ⟨h.named hks.1, named_of_commas hs hks.2.2⟩

end

/-- The expression of a sentence has the names of its identifiers, and the command binds no other. -/
theorem Sentence.named {ks : List Kind} {c : Command} (h : Sentence ks c)
    (hks : ∀ k ∈ ks, k.Named P) : ∀ e, c.expr? = some e → e.Named P := by
  intro e he
  cases h with
  | define _ h =>
    cases he
    simp only [List.forall_mem_cons] at hks
    exact h.named hks.2.2.2
  | explain h => cases he; exact h.named (List.forall_mem_cons.mp hks).2
  | symbols => cases he
  | exit => cases he
  | quit => cases he
  | expression h => cases he; exact h.named hks

/-- A command binds the name of the last result or an identifier of its sentence. -/
theorem Sentence.bound_named {ks : List Kind} {c : Command} (h : Sentence ks c)
    (hlast : P lastResult) (hks : ∀ k ∈ ks, k.Named P) {n : String} {e : Expr}
    (hb : c.binding? = some (n, e)) : P n := by
  cases h with
  | define n _ =>
    cases hb
    simp only [List.forall_mem_cons] at hks
    exact hks.2.1
  | explain _ => cases hb
  | symbols => cases hb
  | exit => cases hb
  | quit => cases hb
  | expression _ => cases hb; exact hlast

end Grammar

end Reckoner
