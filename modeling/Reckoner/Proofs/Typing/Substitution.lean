import Mathlib
import Reckoner.Proofs.Except
import Reckoner.Proofs.Expr.Rewriting
import Reckoner.Proofs.Scope.Lookup
import Reckoner.Typing.Check

/-! # Checks of rewritten expressions

A name means what it is bound to, read in the scope where the name stands.  So the check of a name
goes on with the very expression that a substitution puts in its place, in the same scope, although
the parameters of the functions around it may capture names of that expression.  All that changes is
how deep the check nests.
-/
namespace Reckoner

def TypeError.IsLimit (err : TypeError) : Prop :=
  ∃ n, err = .recursionLimit n

/-- A name has a binding in a scope, which is not the argument of a call. -/
def Scope.Binds (s : Scope) (x : String) (r : Expr) : Prop :=
  ∃ f outer, s.owner? x = some (r, f :: outer) ∧ f.purpose ≠ .activation

namespace Scope

variable {s : Scope} {x : String} {r : Expr}

theorem binds_ofTable {t : Table} (h : t.get? x = some r) : (ofTable t).Binds x r :=
  ⟨_, _, owner?_cons_of_some h, by simp⟩

theorem binds_declare {ps : List Parameter}
    (h : (Table.ofList (ps.map fun p => (p.name, .parameter p))).get? x = some r) :
    (s.declare ps).Binds x r :=
  ⟨_, s, owner?_cons_of_some h, by simp⟩

theorem Binds.resolve? (h : s.Binds x r) : s.resolve? x = some (r, s) := by
  obtain ⟨f, outer, howner, hf⟩ := h
  exact resolve?_of_not_activation howner hf

theorem Binds.cons (h : s.Binds x r) {f : Frame} (hf : f.table.get? x = none) :
    Binds (f :: s) x r := by
  obtain ⟨g, rest, howner, hg⟩ := h
  exact ⟨g, rest, (owner?_cons_of_none hf).trans howner, hg⟩

theorem Binds.declare (h : s.Binds x r) {ps : List Parameter} (hps : Expr.declares ps x = false) :
    (s.declare ps).Binds x r :=
  h.cons (Table.get?_declared_eq_none hps)

end Scope

namespace Typing

open Reckoner.Expr (Rewritten)

variable {limit limit' room room' : Nat} {s : Scope} {x : String} {r : Expr}

theorem checkArguments_follows {check check' : Expr → Result} {args args' : List Expr}
    (h : List.Forall₂ (fun a a' => Follows TypeError.IsLimit Eq (check a) (check' a')) args args')
    (params : List Ty) :
    Follows TypeError.IsLimit Eq (checkArguments check params args)
      (checkArguments check' params args') := by
  induction h generalizing params with
  | nil => cases params <;> exact .ok rfl
  | cons ha _ ih =>
    cases params with
    | nil => exact .ok rfl
    | cons p params =>
      refine ha.bind fun ty ty' hty => ?_
      subst hty
      split
      · exact ih params
      · exact .error _

/-- The check of an expression is followed by that of its rewritten form, with any higher limit. -/
theorem checkWithin_follows (hle : room ≤ room') {e e' : Expr}
    (h : Rewritten (fun _ => s.Binds x r) x r e e') :
    Follows TypeError.IsLimit Eq (checkWithin limit room s e) (checkWithin limit' room' s e') := by
  induction room generalizing room' s e e' with
  | zero => exact .of_excused ⟨limit, rfl⟩ _
  | succ room ih =>
    obtain ⟨room', rfl⟩ : ∃ k, room' = k + 1 := ⟨room' - 1, by omega⟩
    have ih' : ∀ {s : Scope} {e e' : Expr}, Rewritten (fun _ => s.Binds x r) x r e e' →
        Follows TypeError.IsLimit Eq (checkWithin limit room s e) (checkWithin limit' room' s e') :=
      ih (Nat.le_of_succ_le_succ hle)
    cases e with
    | number y =>
      rcases h with rfl | ⟨-, rfl⟩ <;> exact .ok rfl
    | boolean b =>
      rcases h with rfl | ⟨-, rfl⟩ <;> exact .ok rfl
    | parameter p =>
      rcases h with rfl | ⟨-, rfl⟩ <;> exact .ok rfl
    | native code =>
      rcases h with rfl | ⟨-, rfl⟩ <;> exact .ok rfl
    | symbol n =>
      rcases h.symbol with rfl | ⟨hbinds, rfl, rfl⟩
      · rw [checkWithin, checkWithin]
        split
        · exact .error _
        · exact ih' (.refl _ x r _)
      · -- The check of the name goes on with the replacement, one level further in.
        rw [checkWithin, hbinds.resolve?]
        exact ih (Nat.le_of_succ_le hle) (.refl _ n e' _)
    | binary op a b =>
      obtain ⟨a', b', rfl, ha, hb⟩ := h.binary fun h => ⟨h, h⟩
      refine (ih' ha).bind fun left left' hleft => ?_
      refine (ih' hb).bind fun right right' hright => ?_
      subst hleft hright
      split
      · exact .ok rfl
      · exact .error _
    | function m ps b =>
      obtain ⟨b', rfl, hb⟩ : ∃ b', e' = .function m ps b' ∧
          Rewritten (fun _ => (s.declare ps).Binds x r) x r b b' :=
        h.function fun hbinds hps => hbinds.declare hps
      refine (ih' hb).bind fun result result' hresult => ?_
      subst hresult
      exact .ok rfl
    | call f args =>
      obtain ⟨args', rfl, hargs⟩ := h.call fun h _ _ => h
      rw [checkWithin, checkWithin]
      cases hf : s.resolve? f with
      | none => exact .error _
      | some found =>
        refine (ih' (.refl _ x r _)).bind fun callee callee' hcallee => ?_
        subst hcallee
        cases callee with
        | number => exact .error _
        | boolean => exact .error _
        | function params result =>
          dsimp only
          rw [← hargs.length_eq]
          split
          · refine (checkArguments_follows (hargs.imp fun _ _ ha => ih' ha) params).bind
              fun _ _ _ => ?_
            exact .ok rfl
          · exact .error _

/-- Replacing a name by what it is bound to keeps the type of an expression, or the error that it
has. -/
theorem check_substitute {t : Table} (hx : t.get? x = some r) {e : Expr}
    (hlimit : ∀ n, check limit (.ofTable t) e ≠ .error (.recursionLimit n)) :
    check limit (.ofTable t) (Expr.substitute x r e) = check limit (.ofTable t) e := by
  have hrewritten : Rewritten (fun _ => (Scope.ofTable t).Binds x r) x r e (Expr.substitute x r e) :=
    .inr ⟨Scope.binds_ofTable hx, rfl⟩
  refine (checkWithin_follows (Nat.le_refl limit) hrewritten).eq fun err herr hexcused => ?_
  obtain ⟨n, rfl⟩ := hexcused
  exact hlimit n herr

/-- The replacement is captured by a parameter, as the binding of the name is when it is looked up
under that parameter. -/
theorem check_substitute_captured :
    let t := Table.ofList [("x", .symbol "y"), ("y", .number 1)]
    let e := Expr.function 0 [⟨"y", .boolean⟩] (.binary .equal (.symbol "x") (.symbol "y"))
    check 8 (.ofTable t) (Expr.substitute "x" (.symbol "y") e) = check 8 (.ofTable t) e ∧
      check 8 (.ofTable t) e = .ok (.function [.boolean] .boolean) := by
  intro t e
  have hx : t.get? "x" = some (.symbol "y") := rfl
  have htype : check 8 (.ofTable t) e = .ok (.function [.boolean] .boolean) := by decide +kernel
  have hlimit : ∀ n, check 8 (.ofTable t) e ≠ .error (.recursionLimit n) := by
    intro n h
    rw [htype] at h
    cases h
  exact ⟨check_substitute hx hlimit, htype⟩

end Typing

end Reckoner
