import Mathlib
import Reckoner.Proofs.Eval.Halting
import Reckoner.Proofs.Scope.Twins
import Reckoner.Proofs.Typing.Substitution

/-! # Unrelated bindings

Evaluations and checks see a table by way of the names that stand in the expressions they come to.
If the names of an expression are in a set, and so are those of everything that a name of the set is
bound to, then no other binding has a part in the outcome.  Only a suggestion for an unknown name
looks at all the bound names, and only the fuel of an evaluation depends on how large the table is.

A closure carries the whole table with it, in the scope that it has captured, and host code can be
handed closures.  So this holds on hosts that do not look into these scopes.
-/
namespace Reckoner

/-- Two tables have the same bindings for the names of a set, and these have no other names in
them. -/
structure Table.AgreeOn (N : Set String) (t t' : Table) : Prop where
  same : ∀ n ∈ N, t'.get? n = t.get? n
  closed : ∀ n ∈ N, ∀ d, t.get? n = some d → d.Within N

theorem Table.AgreeOn.symm {N : Set String} {t t' : Table} (h : t.AgreeOn N t') : t'.AgreeOn N t where
  same n hn := (h.same n hn).symm
  closed n hn d hd := h.closed n hn d (h.same n hn ▸ hd)

section Restrict

variable {t : Table} {N : Set String} {n : String} {e : Expr}

end Restrict

namespace Eval

/-- Scopes of the same calls over tables that agree on the names of a set, and with arguments that
have no other names in them. -/
def Local (N : Set String) : Scope → Scope → Prop :=
  Scope.Twins (Table.AgreeOn N) fun _ _ a a' => a' = a ∧ a.Within N

variable {host : Host} {N : Set String} {t t' : Table} {e : Expr} {limit : Nat}

theorem Local.finds {s s' : Scope} (h : Local N s s') {n : String} (hn : n ∈ N)
    (excused : Halt → Prop) :
    Scope.Finds excused (Simulation.Shared N (Local N)) (s.resolve? n) (s'.resolve? n) := by
  rcases Scope.Twins.resolve? h n with
    ⟨t, t', ht, hs, hs'⟩ | ⟨a, a', outer, outer', hs, hs', hout, ha, hnames⟩
  · rw [hs, hs', ht.same n hn]
    cases hget : t.get? n with
    | none => exact .lost
    | some d => exact .found ⟨h, rfl, ht.closed n hn d hget⟩
  · rw [hs, hs']
    exact .found ⟨hout, ha, hnames⟩

theorem Local.activate {s s' : Scope} (h : Local N s s') (ps : List Parameter) {args : List Expr}
    (hargs : ∀ a ∈ args, a.Within N) : Local N (s.activate ps args) (s'.activate ps args) :=
  Scope.Twins.activate ps h (List.forall₂_same.mpr fun a ha => ⟨rfl, hargs a ha⟩)

section Hosts

variable (hhost : host.Blind)
include hhost

end Hosts

end Eval

namespace Typing

/-- Scopes that bind the names of a set to the same expressions, which are read where the name was
looked up and have no other names in them. -/
def Local (N : Set String) (s s' : Scope) : Prop :=
  ∀ n ∈ N, s.owner? n = none ∧ s'.owner? n = none ∨
    ∃ d, d.Within N ∧ s.Binds n d ∧ s'.Binds n d

variable {N : Set String} {t t' : Table} {s s' : Scope} {e : Expr}

theorem Local.ofTable (ht : t.AgreeOn N t') : Local N (.ofTable t) (.ofTable t') := by
  intro n hn
  cases hget : t.get? n with
  | none =>
    left
    simp [Scope.owner?_ofTable, ht.same n hn, hget]
  | some d =>
    right
    exact ⟨d, ht.closed n hn d hget, Scope.binds_ofTable hget,
      Scope.binds_ofTable ((ht.same n hn).trans hget)⟩

theorem Local.declare (h : Local N s s') (ps : List Parameter) :
    Local N (s.declare ps) (s'.declare ps) := by
  intro n hn
  cases hget : (Table.ofList (ps.map fun p => (p.name, Expr.parameter p))).get? n with
  | none =>
    rcases h n hn with ⟨hs, hs'⟩ | ⟨d, hd, hs, hs'⟩
    · left
      rw [Scope.declare, Scope.declare, Scope.owner?_cons_of_none hget,
        Scope.owner?_cons_of_none hget]
      exact ⟨hs, hs'⟩
    · exact .inr ⟨d, hd, hs.cons hget, hs'.cons hget⟩
  | some d =>
    obtain ⟨p, -, heq⟩ := List.mem_map.mp (Table.mem_of_get?_ofList hget)
    cases heq
    exact .inr ⟨_, Expr.within_of_names_eq_nil rfl, Scope.binds_declare hget,
      Scope.binds_declare hget⟩

theorem Local.resolve? (h : Local N s s') {n : String} (hn : n ∈ N) :
    s.resolve? n = none ∧ s'.resolve? n = none ∨
      ∃ d, d.Within N ∧ s.resolve? n = some (d, s) ∧ s'.resolve? n = some (d, s') := by
  rcases h n hn with ⟨hs, hs'⟩ | ⟨d, hd, hs, hs'⟩
  · left
    simp [Scope.resolve?, hs, hs']
  · exact .inr ⟨d, hd, hs.resolve?, hs'.resolve?⟩

end Typing

end Reckoner
