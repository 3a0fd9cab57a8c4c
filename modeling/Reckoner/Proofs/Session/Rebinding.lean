import Mathlib
import Reckoner.Proofs.Eval.Halting
import Reckoner.Proofs.Scope.Twins
import Reckoner.Proofs.Session.Binding

/-! # What a binding keeps

A line makes its binding before anything is evaluated, and a name means what it is bound to when it
is looked up.  A value that comes about without the old binding of the name can be had under the name
once the new binding is made; one that came out of the old binding, by way of other names, need not
be the same any more.
-/
namespace Reckoner

/-- A table has every binding of another, and perhaps more. -/
def Table.Extends (t' t : Table) : Prop :=
  ∀ n e, t.get? n = some e → t'.get? n = some e

theorem Table.extends_erase (t : Table) (name : String) : t.Extends (t.erase name) := by
  intro n e h
  rw [get?_erase] at h
  split at h
  · cases h
  · exact h

/-- A binding takes nothing away where its name was unbound. -/
theorem Table.Extends.insert {t t' : Table} (h : t'.Extends t) {name : String}
    (hname : t.get? name = none) (e : Expr) : (t'.insert name e).Extends t := by
  intro n d hd
  rw [get?_insert]
  split
  · rename_i heq
    rw [heq, hname] at hd
    cases hd
  · exact h n d hd

namespace Eval

/-- Scopes of the same calls, the second with more bindings at its root. -/
def Grown : Scope → Scope → Prop :=
  Scope.Twins (fun t t' => t'.Extends t) fun _ _ a a' => a' = a

theorem Grown.finds {s s' : Scope} (h : Grown s s') (n : String) :
    Scope.Finds (fun _ => True) (Simulation.Shared .univ Grown) (s.resolve? n) (s'.resolve? n) := by
  rcases Scope.Twins.resolve? h n with
    ⟨t, t', ht, hs, hs'⟩ | ⟨a, a', outer, outer', hs, hs', hout, ha⟩
  · rw [hs, hs']
    cases hn : t.get? n with
    | none => exact .excused (fun _ => trivial) _
    | some e =>
      rw [ht n e hn]
      exact .found ⟨h, rfl, e.within_univ⟩
  · rw [hs, hs']
    exact .found ⟨hout, ha, a.within_univ⟩

theorem Grown.activate {s s' : Scope} (h : Grown s s') (ps : List Parameter) (args : List Expr) :
    Grown (s.activate ps args) (s'.activate ps args) :=
  Scope.Twins.activate ps h (List.forall₂_same.mpr fun _ _ => rfl)

variable {t t' : Table} {e : Expr} {v : Value} {fuel limit : Nat}

/-- A value is kept when bindings are added, on any stack with as much room. -/
theorem evalWithin_of_extends (ht : t'.Extends t)
    (hv : (∃ x, v = .number x) ∨ ∃ b, v = .boolean b) {stack : CallStack} (hroom : limit ≤ stack.room)
    (h : Prelude.host.evalWithin fuel (.ofLimit limit) (.ofTable t) e = .ok v) :
    Prelude.host.evalWithin fuel stack (.ofTable t') e = .ok v := by
  have hsim : Simulation Prelude.host (fun _ => True) (Simulation.Shared .univ Grown) _ :=
    .of_scopes trivial (fun h n _ => h.finds n) fun h ps args _ => h.activate ps args
  have hstack : (CallStack.ofLimit limit).Abreast (fun _ => True) stack :=
    .of_room_le (fun _ => trivial) hroom
  have hfollows : Follows (fun _ => True) _
      (Prelude.host.evalWithin fuel (.ofLimit limit) (.ofTable t) e)
      (Prelude.host.evalWithin fuel stack (.ofTable t') e) :=
    hsim.along (Prelude.respects _) (Nat.le_refl fuel) hstack ⟨.root ht, rfl, e.within_univ⟩
  rw [h] at hfollows
  obtain ⟨w, hw, halike⟩ := hfollows
  rwa [halike.eq_of_simple hv] at hw

/-- The value of an expression is the value of a name that is bound to it in a larger table. -/
theorem eval_symbol_of_extends (ht : t'.Extends t) (hwf : t'.WellFormed) {n : String}
    (hn : t'.get? n = some e) (hv : (∃ x, v = .number x) ∨ ∃ b, v = .boolean b)
    (h : eval limit (.ofTable t) e = .ok v) {limit' : Nat} (hlt : limit < limit') :
    eval limit' (.ofTable t') (.symbol n) = .ok v := by
  obtain ⟨room, rfl⟩ := Nat.exists_eq_add_one_of_ne_zero (Nat.ne_zero_of_lt hlt)
  have hsymbol (fuel : Nat) :
      Prelude.host.evalWithin (fuel + 1) (.ofLimit (room + 1)) (.ofTable t') (.symbol n) =
        Prelude.host.evalWithin fuel ⟨[.symbol n], room⟩ (.ofTable t') e := by
    rw [Host.evalWithin, Scope.resolve?_of_root (Scope.owner?_ofTable t' n), hn]
    rfl
  have hbound : Prelude.host.evalWithin _ ⟨[.symbol n], room⟩ (.ofTable t') e = .ok v :=
    evalWithin_of_extends ht hv (Nat.le_of_lt_succ hlt) h
  exact eval_eq_ok_of_evalWithin Prelude.bounded hwf.placed (.symbol n) ((hsymbol _).trans hbound)

end Eval

namespace Session

variable {limit : Nat} {s : Session} {line : String} {c : Command} {n : String} {e : Expr}

/-- A line that binds a name to an expression makes the value of the expression the value of the
name, if the name was unbound or the expression has its value without the old binding of the name. -/
theorem eval_symbol_execute (hs : Reachable s.table) (hp : prepare limit s.table line = .ok c)
    (hb : c.binding? = some (n, e)) {k : Nat} {v : Value}
    (hv : (∃ x, v = .number x) ∨ ∃ b, v = .boolean b)
    (heval : Eval.eval k (.ofTable s.table) e = .ok v)
    (hold : s.table.get? n = none ∨ Eval.eval k (.ofTable (s.table.erase n)) e = .ok v) {k' : Nat}
    (hk : k < k') : Eval.eval k' (.ofTable (execute limit s line).table) (.symbol n) = .ok v := by
  obtain ⟨e₀, _, he₀, he, -⟩ := prepare_binding hp hb
  have hwf : (s.table.insert n e).WellFormed :=
    hs.wellFormed.insert n (he ▸ hs.wellFormed.expandSelf n he₀.wellFormed)
  have hn : (s.table.insert n e).get? n = some e := by
    rw [Table.get?_insert, if_pos rfl]
  rw [execute_of_prepare hp hb]
  rcases hold with hnone | hwithout
  · have hext : s.table.Extends s.table := fun _ _ h => h
    exact Eval.eval_symbol_of_extends (hext.insert hnone e) hwf hn hv heval hk
  · have hnone : (s.table.erase n).get? n = none := by
      rw [Table.get?_erase, if_pos rfl]
    have hext := (s.table.extends_erase n).insert hnone e
    exact Eval.eval_symbol_of_extends hext hwf hn hv hwithout hk

/-- The name is bound anew to an expression that mentions it. -/
theorem eval_symbol_execute_self :
    let s := ["let y = true", "let x = y"].foldl (execute 16) fresh
    prepare 16 s.table "let x = x == y" =
        .ok (.define "x" (.binary .equal (.symbol "y") (.symbol "y"))) ∧
      Eval.eval 16 (.ofTable (execute 16 s "let x = x == y").table) (.symbol "x") =
        .ok (.boolean true) := by
  intro s
  let t₁ := Prelude.table.insert "y" (.boolean true)
  let t₂ := t₁.insert "x" (.symbol "y")
  have h₁ : execute 16 fresh "let y = true" = ⟨t₁, 0⟩ :=
    execute_define (by cbv) rfl (by decide +kernel)
  have h₂ : execute 16 ⟨t₁, 0⟩ "let x = y" = ⟨t₂, 0⟩ :=
    execute_define (by cbv) rfl (by decide +kernel)
  have hs : s = ⟨t₂, 0⟩ := by
    simp only [s, List.foldl_cons, List.foldl_nil, h₁, h₂]
  have hreachable : Reachable s.table := ⟨16, ["let y = true", "let x = y"], rfl⟩
  have hp : prepare 16 t₂ "let x = x == y" =
      .ok (.define "x" (.binary .equal (.symbol "y") (.symbol "y"))) :=
    prepare_of_check (c := .define "x" (.binary .equal (.symbol "x") (.symbol "y"))) (by cbv) rfl
      (by decide +kernel)
  rw [hs] at hreachable ⊢
  exact ⟨hp, eval_symbol_execute (k := 15) hreachable hp rfl (.inr ⟨true, rfl⟩) rfl (.inr rfl)
    (by decide)⟩

/-- A name `y` has its value by way of a function that reads `x`.  Once `x` is bound to `y`, the
function reads its own argument in place of the old value, whatever the limit. -/
theorem eval_symbol_execute_changed :
    let s := ["let x = true", "let g = (y: Boolean) -> x", "let y = g(false)"].foldl (execute 16) fresh
    prepare 16 s.table "let x = y" = .ok (.define "x" (.symbol "y")) ∧
      Eval.eval 16 (.ofTable s.table) (.symbol "y") = .ok (.boolean true) ∧
      ∀ k, Eval.eval k (.ofTable (execute 16 s "let x = y").table) (.symbol "x") ≠
        .ok (.boolean true) := by
  intro s
  let t₁ := Prelude.table.insert "x" (.boolean true)
  let t₂ := t₁.insert "g" (.function 0 [⟨"y", .boolean⟩] (.symbol "x"))
  let t₃ := t₂.insert "y" (.call "g" [.boolean false])
  have h₁ : execute 16 fresh "let x = true" = ⟨t₁, 0⟩ :=
    execute_define (by cbv) rfl (by decide +kernel)
  have h₂ : execute 16 ⟨t₁, 0⟩ "let g = (y: Boolean) -> x" = ⟨t₂, 0⟩ :=
    execute_define (by cbv) rfl (by decide +kernel)
  have h₃ : execute 16 ⟨t₂, 0⟩ "let y = g(false)" = ⟨t₃, 0⟩ :=
    execute_define (by cbv) rfl (by decide +kernel)
  have hs : s = ⟨t₃, 0⟩ := by
    simp only [s, List.foldl_cons, List.foldl_nil, h₁, h₂, h₃]
  have hp : prepare 16 t₃ "let x = y" = .ok (.define "x" (.symbol "y")) :=
    prepare_of_check (c := .define "x" (.symbol "y")) (by cbv) rfl (by decide +kernel)
  have hreachable : Reachable s.table :=
    ⟨16, ["let x = true", "let g = (y: Boolean) -> x", "let y = g(false)"], rfl⟩
  rw [hs] at hreachable ⊢
  rw [execute_of_prepare (s := ⟨t₃, 0⟩) hp rfl]
  have hplaced := (hreachable.wellFormed.insert "x" (.symbol "y")).placed
  have htrue : Eval.eval 16 (.ofTable t₃) (.symbol "y") = .ok (.boolean true) := rfl
  have hfalse : Eval.eval 16 (.ofTable (t₃.insert "x" (.symbol "y"))) (.symbol "x") =
      .ok (.boolean false) := rfl
  refine ⟨hp, htrue, fun k hk => ?_⟩
  -- Values that two limits give are both given by any higher one.
  have htrue' :=
    Eval.eval_eq_ok_of_le Prelude.bounded hplaced (.symbol "x") (Nat.le_max_left k 16) hk
  have hfalse' :=
    Eval.eval_eq_ok_of_le Prelude.bounded hplaced (.symbol "x") (Nat.le_max_right k 16) hfalse
  cases htrue'.symm.trans hfalse'

end Session

end Reckoner
