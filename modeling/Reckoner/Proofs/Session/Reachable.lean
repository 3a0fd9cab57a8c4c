import Mathlib
import Reckoner.Proofs.Scope.Lookup
import Reckoner.Session.Basic

/-! # The tables that sessions reach

A fresh session starts with the built-in functions, and every line leaves the table alone or makes
one binding, of an expression that was parsed, had its own name expanded, and was checked.  What
holds of the first table and is kept by such a binding holds of every table that a session reaches.
-/
namespace Reckoner

/-- The expressions that can stand in a line. -/
def Expr.Parsed (e : Expr) : Prop :=
  ∃ line command, Command.parse line = .ok command ∧ command.expr? = some e

theorem Expr.Parsed.wellFormed {e : Expr} (h : e.Parsed) : e.WellFormed := by
  obtain ⟨line, command, hparse, he⟩ := h
  exact Command.wellFormed_of_parse hparse he

theorem Command.expr?_of_binding? {c : Command} {name : String} {e : Expr}
    (h : c.binding? = some (name, e)) : c.expr? = some e := by
  cases c <;> cases h <;> rfl

theorem Command.binding?_withExpr {c : Command} {name : String} {e : Expr} (d : Expr)
    (h : c.binding? = some (name, e)) : (c.withExpr d).binding? = some (name, d) := by
  cases c <;> cases h <;> rfl

namespace Session

/-- The tables that a fresh session has after some lines, whatever limit its checks have. -/
def Reachable (t : Table) : Prop :=
  ∃ (limit : Nat) (lines : List String), (lines.foldl (execute limit) fresh).table = t

/-- A command that binds a name was parsed, expanded and checked. -/
theorem prepare_binding {limit : Nat} {t : Table} {line : String} {c : Command} {name : String}
    {e : Expr} (h : prepare limit t line = .ok c) (hb : c.binding? = some (name, e)) :
    ∃ e₀ ty, e₀.Parsed ∧ e = expandSelf t name e₀ ∧
      Typing.check limit (Scope.ofTable t) e = .ok ty := by
  unfold prepare at h
  split at h
  · cases h
  · rename_i c₀ hparse
    split at h
    · rename_i hnone
      cases h
      rw [hnone] at hb
      cases hb
    · rename_i name₀ e₀ hsome
      dsimp only at h
      split at h
      · cases h
      · rename_i ty hcheck
        cases h
        rw [Command.binding?_withExpr _ hsome] at hb
        cases hb
        exact ⟨e₀, ty, ⟨line, c₀, hparse, Command.expr?_of_binding? hsome⟩, rfl, hcheck⟩

/-- A line leaves the table alone or makes the binding of its command. -/
theorem execute_table (limit : Nat) (s : Session) (line : String) :
    (execute limit s line).table = s.table ∨
      ∃ c name e, prepare limit s.table line = .ok c ∧ c.binding? = some (name, e) ∧
        (execute limit s line).table = s.table.insert name e := by
  simp only [execute]
  split
  · exact .inl rfl
  · cases hp : prepare limit s.table line with
    | error r => exact .inl rfl
    | ok c =>
      cases hb : c.binding? with
      | none =>
        left
        simp [accept, bind, hb]
      | some b =>
        obtain ⟨name, e⟩ := b
        right
        exact ⟨c, name, e, rfl, hb, by simp [accept, bind, hb]⟩

/-- Induction along the lines of a session: what holds of the first table and is kept by the
binding of every accepted line holds of every reachable table. -/
theorem Reachable.induct {P : Table → Prop} (base : P Prelude.table)
    (step : ∀ limit t line c name e, P t → prepare limit t line = .ok c →
      c.binding? = some (name, e) → P (t.insert name e))
    {t : Table} (h : Reachable t) : P t := by
  obtain ⟨limit, lines, rfl⟩ := h
  have hrun : ∀ s : Session, P s.table → P (lines.foldl (execute limit) s).table := by
    induction lines with
    | nil => exact fun s hs => hs
    | cons line lines ih =>
      intro s hs
      apply ih
      rcases execute_table limit s line with heq | ⟨c, name, e, hp, hb, heq⟩
      · rwa [heq]
      · rw [heq]
        exact step limit s.table line c name e hs hp hb
  exact hrun fresh base

/-- What holds of every binding of the first table, and of what an accepted line binds if it holds of
the bindings so far, holds of every binding of a reachable table. -/
theorem Reachable.forall_bindings {P : String → Expr → Prop}
    (base : ∀ n e, Prelude.table.get? n = some e → P n e)
    (step : ∀ limit t line c name e, (∀ n d, t.get? n = some d → P n d) →
      prepare limit t line = .ok c → c.binding? = some (name, e) → P name e)
    {t : Table} (h : Reachable t) : ∀ n e, t.get? n = some e → P n e := by
  apply h.induct base
  intro limit t line c name e ht hp hb
  exact Table.forall_insert ht (step limit t line c name e ht hp hb)

end Session

def Table.WellFormed (t : Table) : Prop :=
  ∀ name e, t.get? name = some e → e.WellFormed

namespace Table.WellFormed

theorem insert {t : Table} (h : t.WellFormed) (name : String) {e : Expr} (he : e.WellFormed) :
    (t.insert name e).WellFormed :=
  forall_insert h he

/-- An expression about to be bound stays well formed when its own name is expanded. -/
theorem expandSelf {t : Table} (h : t.WellFormed) (name : String) {e : Expr}
    (he : e.WellFormed) : (Session.expandSelf t name e).WellFormed := by
  simp only [Session.expandSelf]
  split
  · split
    · rename_i previous hprevious
      exact (h name previous hprevious).substitute he
    · exact he
  · exact he

end Table.WellFormed

namespace Prelude

theorem wellFormed_sum : sum.WellFormed := by
  refine .function 0 (fun p hp => .inl ?_) (.binary .add (.symbol _) (.symbol _))
  simp only [List.mem_cons, List.not_mem_nil, or_false] at hp
  rcases hp with rfl | rfl <;> rfl

/-- Every host function is found by its name, and is declared with as many parameters as it takes. -/
theorem hostFunctions_found : ∀ h ∈ hostFunctions,
    mathFunction? ⟨h.1⟩ = some h.2.2 ∧ h.2.2.arity = h.2.1.length := by
  decide

theorem wellFormed_bindings : ∀ b ∈ bindings, b.2.WellFormed := by
  intro b hb
  rcases List.mem_cons.mp hb with rfl | hb
  · exact wellFormed_sum
  · obtain ⟨⟨name, params, f⟩, hmem, rfl⟩ := List.mem_map.mp hb
    obtain ⟨hfound, harity⟩ := hostFunctions_found _ hmem
    refine .native 0 ⟨rfl, fun p hp => ?_, rfl, f, hfound, ?_⟩
    · obtain ⟨n, -, rfl⟩ := List.mem_map.mp hp
      rfl
    · rw [List.length_map]
      exact harity

/-- What holds of zero as the last result and of the built-in functions holds of every binding of a
fresh session. -/
theorem forall_table {P : String → Expr → Prop} (hlast : P lastResult (.number 0.0))
    (hbindings : ∀ b ∈ bindings, P b.1 b.2) (n : String) (e : Expr) (h : table.get? n = some e) :
    P n e := by
  rcases Table.mem_or_get?_of_insertAll h with hmem | hget
  · exact hbindings (n, e) hmem
  · exact Table.forall_insert (fun _ _ h => nomatch h) hlast n e hget

end Prelude

/-- Every table that a session reaches is well formed. -/
theorem Session.Reachable.wellFormed {t : Table} (h : Reachable t) : t.WellFormed := by
  refine h.forall_bindings (P := fun _ e => e.WellFormed)
    (Prelude.forall_table (.number 0.0) Prelude.wellFormed_bindings) ?_
  intro limit t line c name e ht hp hb
  obtain ⟨e₀, _, he₀, rfl, -⟩ := prepare_binding hp hb
  exact Table.WellFormed.expandSelf ht name he₀.wellFormed

end Reckoner
