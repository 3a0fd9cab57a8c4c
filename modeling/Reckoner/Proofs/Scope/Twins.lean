import Mathlib
import Reckoner.Proofs.Scope.Lookup

/-! # Scopes side by side

Two evaluations that make the same calls open activations for the same parameters, over root tables
and with arguments that are related in some way.  A lookup then passes the same activations in both:
it finds related arguments, which are read in scopes that are again side by side, or it gets to the
root tables.
-/
namespace Reckoner

/-- Scopes with activations for the same parameters, where `root` relates the tables at the root and
`arg` relates arguments, given the scopes in which they are read. -/
inductive Scope.Twins (root : Table → Table → Prop) (arg : Scope → Scope → Expr → Expr → Prop) :
    Scope → Scope → Prop where
  | root {t t' : Table} (h : root t t') : Twins root arg (.ofTable t) (.ofTable t')
  | activate {s s' : Scope} {args args' : List Expr} (ps : List Parameter)
      (h : Twins root arg s s') (hargs : List.Forall₂ (arg s s') args args') :
      Twins root arg (s.activate ps args) (s'.activate ps args')

namespace Table

theorem get?_insertAll_zip {R : Expr → Expr → Prop} {args args' : List Expr}
    (h : List.Forall₂ R args args') (names : List String) {t t' : Table} {n : String}
    (hn : Option.Rel R (t.get? n) (t'.get? n)) :
    Option.Rel R ((t.insertAll (names.zip args)).get? n) ((t'.insertAll (names.zip args')).get? n) := by
  induction h generalizing names t t' with
  | nil => simpa [insertAll] using hn
  | @cons a a' args args' ha _ ih =>
    cases names with
    | nil => exact hn
    | cons m names =>
      apply ih
      rw [get?_insert, get?_insert]
      split
      · exact .some ha
      · exact hn

/-- Names are bound to arguments at the same places, so a name has related arguments or none. -/
theorem get?_ofList_zip {R : Expr → Expr → Prop} {args args' : List Expr}
    (h : List.Forall₂ R args args') (names : List String) (n : String) :
    Option.Rel R ((ofList (names.zip args)).get? n) ((ofList (names.zip args')).get? n) :=
  get?_insertAll_zip h names .none

end Table

namespace Scope.Twins

variable {root : Table → Table → Prop} {arg : Scope → Scope → Expr → Expr → Prop} {s s' : Scope}

theorem ne_nil (h : Twins root arg s s') : s ≠ [] ∧ s' ≠ [] := by
  cases h <;> exact ⟨List.cons_ne_nil _ _, List.cons_ne_nil _ _⟩

theorem owner? (h : Twins root arg s s') (n : String) :
    (∃ t t', root t t' ∧ s.owner? n = (t.get? n).map (·, ofTable t) ∧
        s'.owner? n = (t'.get? n).map (·, ofTable t')) ∨
      ∃ a a' f f' outer outer', s.owner? n = some (a, f :: outer) ∧
        s'.owner? n = some (a', f' :: outer') ∧ f.purpose = .activation ∧
        f'.purpose = .activation ∧ Twins root arg outer outer' ∧ arg outer outer' a a' := by
  induction h with
  | @root t t' h => exact .inl ⟨t, t', h, owner?_ofTable t n, owner?_ofTable t' n⟩
  | @activate s s' args args' ps h hargs ih =>
    have hpair := Table.get?_ofList_zip hargs (ps.map (·.name)) n
    generalize hgiven : (Table.ofList ((ps.map (·.name)).zip args)).get? n = x at hpair
    generalize hgiven' : (Table.ofList ((ps.map (·.name)).zip args')).get? n = y at hpair
    cases hpair with
    | none =>
      rw [Scope.activate, Scope.activate, owner?_cons_of_none hgiven, owner?_cons_of_none hgiven']
      exact ih
    | some ha =>
      right
      exact ⟨_, _, _, _, s, s', owner?_cons_of_some hgiven, owner?_cons_of_some hgiven', rfl, rfl,
        h, ha⟩

/-- A lookup finds related arguments, or what the tables at the root have. -/
theorem resolve? (h : Twins root arg s s') (n : String) :
    (∃ t t', root t t' ∧ s.resolve? n = (t.get? n).map (·, s) ∧
        s'.resolve? n = (t'.get? n).map (·, s')) ∨
      ∃ a a' outer outer', s.resolve? n = some (a, outer) ∧ s'.resolve? n = some (a', outer') ∧
        Twins root arg outer outer' ∧ arg outer outer' a a' := by
  rcases h.owner? n with ⟨t, t', ht, hs, hs'⟩ | ⟨a, a', f, f', outer, outer', hs, hs', hf, hf', ho, ha⟩
  · exact .inl ⟨t, t', ht, resolve?_of_root hs, resolve?_of_root hs'⟩
  · obtain ⟨hne, hne'⟩ := ho.ne_nil
    exact .inr ⟨a, a', outer, outer', resolve?_of_activation hs hf hne,
      resolve?_of_activation hs' hf' hne', ho, ha⟩

end Scope.Twins

end Reckoner
