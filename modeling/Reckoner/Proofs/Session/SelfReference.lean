import Mathlib
import Reckoner.Proofs.Expr.Names
import Reckoner.Proofs.Session.Binding
import Reckoner.Proofs.Typing.Acceptance

/-! # Bindings do not refer to themselves

A line that mentions the name it binds means what the name was bound to before, so the name is gone
from what is bound.  If the name was not bound before, nothing replaces it; but then the check finds
it unbound, wherever in the expression it is used.
-/
namespace Reckoner

namespace Typing

/-- A check looks up every name that the expression uses. -/
theorem owner?_ne_none_of_uses {limit room : Nat} {s : Scope} {e : Expr} {x : String} {ty : Ty}
    (huses : e.Uses x) (h : checkWithin limit room s e = .ok ty) : s.owner? x ≠ none := by
  induction room generalizing s e ty with
  | zero => cases h
  | succ room ih =>
    cases huses with
    | symbol =>
      obtain ⟨d, env, hx, -⟩ := checkWithin_symbol_eq_ok_iff.mp h
      obtain ⟨_, howner, -⟩ := Option.map_eq_some_iff.mp hx
      simp [howner]
    | left op r huses =>
      obtain ⟨_, hl, -⟩ := checkWithin_binary_eq_ok_iff.mp h
      exact ih huses hl
    | right op l huses =>
      obtain ⟨_, -, hr, -⟩ := checkWithin_binary_eq_ok_iff.mp h
      exact ih huses hr
    | body m hps huses =>
      obtain ⟨_, hb, -⟩ := checkWithin_function_eq_ok_iff.mp h
      have hbody := ih huses hb
      rwa [Scope.declare, Scope.owner?_cons_of_none (Table.get?_declared_eq_none hps)] at hbody
    | argument f hmem huses =>
      obtain ⟨_, _, _, -, -, hargs⟩ := checkWithin_call_eq_ok_iff.mp h
      obtain ⟨i, hi, rfl⟩ := List.getElem_of_mem hmem
      exact ih huses (hargs.get (hargs.length_eq ▸ hi) hi).2

end Typing

theorem Prelude.not_uses_bindings : ∀ b ∈ bindings, ¬ b.2.Uses b.1 := by
  intro b hb huses
  rcases List.mem_cons.mp hb with rfl | hb
  · cases huses with
    | body _ _ huses =>
      cases huses with
      | left _ _ huses => simp at huses
      | right _ _ huses => simp at huses
  · obtain ⟨_, _, rfl⟩ := List.mem_map.mp hb
    cases huses with
    | body _ _ huses => cases huses

namespace Session

variable {t : Table} {name : String} {e : Expr}

/-- Expansion takes a name out of the expression that it is about to be bound to, if what it was bound
to before does not use it and an unbound name is refused. -/
theorem not_uses_expandSelf (he : e.WellFormed) (ht : ∀ d, t.get? name = some d → ¬ d.Uses name)
    {limit : Nat} {ty : Ty}
    (hcheck : Typing.check limit (.ofTable t) (expandSelf t name e) = .ok ty) :
    ¬ (expandSelf t name e).Uses name := by
  intro huses
  -- An unbound name is not replaced, but the check would have refused it.
  have hbound : t.get? name ≠ none := by
    have howner := Typing.owner?_ne_none_of_uses huses hcheck
    rwa [Scope.owner?_ofTable, ne_eq, Option.map_eq_none_iff] at howner
  obtain ⟨previous, hprevious⟩ := Option.ne_none_iff_exists'.mp hbound
  simp only [expandSelf, hprevious] at huses
  split at huses
  · exact ht previous hprevious (huses.of_substitute he)
  · rename_i hmentions
    exact hmentions huses.mentions

/-- No binding of a session refers to itself: a name does not occur free, as a symbol, in the
expression that it is bound to. -/
theorem not_uses_self (ht : Reachable t) (h : t.get? name = some e) : ¬ e.Uses name := by
  refine ht.forall_bindings (P := fun n d => ¬ d.Uses n)
    (Prelude.forall_table (fun huses => nomatch huses) Prelude.not_uses_bindings) ?_ name e h
  intro limit t line c name e ht hp hb
  obtain ⟨e₀, ty, he₀, rfl, hcheck⟩ := prepare_binding hp hb
  exact not_uses_expandSelf he₀.wellFormed (ht name) hcheck

/-- The name is bound anew to a function literal that uses it. -/
theorem not_uses_self_rebound :
    let t := (["let x = #", "let x = (y: Number) -> x + y"].foldl (execute 16) fresh).table
    let e := Expr.function 0 [⟨"y", .number⟩] (.binary .add (.symbol "#") (.symbol "y"))
    t.get? "x" = some e ∧ ¬ e.Uses "x" := by
  intro t e
  let e₀ := Expr.function 0 [⟨"y", .number⟩] (.binary .add (.symbol "x") (.symbol "y"))
  let t₁ := Prelude.table.insert "x" (.symbol "#")
  have h₁ : execute 16 fresh "let x = #" = ⟨t₁, 0⟩ :=
    execute_define (by cbv) rfl (by decide +kernel)
  have hp : prepare 16 t₁ "let x = (y: Number) -> x + y" = .ok (.define "x" e) :=
    prepare_of_check (c := .define "x" e₀) (by cbv) rfl (by decide +kernel)
  have h₂ : execute 16 ⟨t₁, 0⟩ "let x = (y: Number) -> x + y" = ⟨t₁.insert "x" e, 0⟩ :=
    execute_of_prepare hp rfl
  have ht : Reachable t := ⟨16, _, rfl⟩
  have hget : t.get? "x" = some e := by
    simp only [t, List.foldl_cons, List.foldl_nil, h₁, h₂, Table.get?_insert, if_pos]
  exact ⟨hget, not_uses_self ht hget⟩

end Session

end Reckoner
