import Mathlib
import Reckoner.Proofs.Stateful
import Reckoner.Typing.Counted

/-! # The depth counter of checks

Checks that count how deep they nest in one counter go as checks do that are told how many more levels
there is room for, and they leave the counter as they found it.
-/
namespace Reckoner.Typing.Counted

open Stateful (Keeps)

variable {limit depth : Nat}

theorem checkArguments_keeps {check : Expr → Counted Ty} {check' : Expr → Result}
    (hcheck : ∀ e, Keeps (Eq depth) depth (check e) (check' e)) (params : List Ty)
    (args : List Expr) :
    Keeps (Eq depth) depth (checkArguments check params args)
      (Typing.checkArguments check' params args) := by
  induction args generalizing params with
  | nil => cases params <;> exact .pure rfl _
  | cons a args ih =>
    cases params with
    | nil => exact .pure rfl _
    | cons p params =>
      rw [checkArguments, Typing.checkArguments]
      refine (hcheck a).bind fun t ty ht => ?_
      subst ht
      split
      · exact ih params
      · exact .throw rfl _

theorem checkNode_keeps {room : Nat} {check : Scope → Expr → Counted Ty}
    (hcheck : ∀ s e, Keeps (Eq depth) depth (check s e) (Typing.checkWithin limit room s e))
    (s : Scope) (e : Expr) :
    Keeps (Eq depth) depth (checkNode check s e) (Typing.checkWithin limit (room + 1) s e) := by
  cases e with
  | number x => exact .pure rfl _
  | boolean b => exact .pure rfl _
  | parameter p => exact .pure rfl _
  | native code => exact .pure rfl _
  | symbol n =>
    rw [checkNode, Typing.checkWithin]
    cases s.resolve? n with
    | none => exact .throw rfl _
    | some found => exact hcheck _ _
  | binary op l r =>
    rw [checkNode, Typing.checkWithin]
    refine (hcheck s l).bind fun t left ht => ?_
    subst ht
    refine (hcheck s r).bind fun t right ht => ?_
    subst ht
    split
    · exact .pure rfl _
    · exact .throw rfl _
  | function m ps b =>
    rw [checkNode, Typing.checkWithin]
    refine (hcheck _ b).bind fun t result ht => ?_
    exact .pure ht _
  | call f args =>
    rw [checkNode, Typing.checkWithin]
    cases s.resolve? f with
    | none => exact .throw rfl _
    | some found =>
      refine (hcheck _ _).bind fun t ty ht => ?_
      subst ht
      cases ty with
      | number => exact .throw rfl _
      | boolean => exact .throw rfl _
      | function params result =>
        dsimp only
        split
        · refine (checkArguments_keeps (hcheck s) params args).bind fun t _ ht => ?_
          exact .pure ht result
        · exact .throw rfl _

theorem outcome_descend (limit depth : Nat) :
    (descend limit).outcome depth =
      some (if limit ≤ depth then (.error (.recursionLimit limit), depth)
        else (.ok (), depth + 1)) := by
  rw [descend, Stateful.outcome_bind]
  change Stateful.outcome (if limit ≤ depth then _ else _) depth = _
  split <;> rfl

/-- No check is made at the limit. -/
theorem checkWithin_keeps_of_limit_le (h : limit ≤ depth) (fuel : Nat) (s : Scope) (e : Expr) :
    Keeps (Eq depth) depth (checkWithin limit (fuel + 1) s e)
      (Typing.checkWithin limit (limit - depth) s e) := by
  rw [Nat.sub_eq_zero_of_le h, Typing.checkWithin]
  exact .between_error rfl (by rw [outcome_descend, if_pos h])

/-- With fuel for the levels that are left, a check comes to what the check with that much room comes to,
and the counter is back at its value then. -/
theorem checkWithin_keeps {fuel : Nat} (hfuel : limit ≤ depth + fuel) (s : Scope) (e : Expr) :
    Keeps (Eq depth) depth (checkWithin limit (fuel + 1) s e)
      (Typing.checkWithin limit (limit - depth) s e) := by
  induction fuel generalizing depth s e with
  | zero => exact checkWithin_keeps_of_limit_le hfuel 0 s e
  | succ fuel ih =>
    by_cases h : limit ≤ depth
    · exact checkWithin_keeps_of_limit_le h (fuel + 1) s e
    · have hroom : limit - depth = limit - (depth + 1) + 1 := by omega
      have hinner : limit ≤ depth + 1 + fuel := by omega
      rw [hroom, checkWithin]
      refine .between (by rw [outcome_descend, if_neg h])
        (checkNode_keeps (fun s e => ih hinner s e) s e) ?_
      rintro _ rfl
      exact ⟨depth, rfl, Stateful.outcome_change _ _⟩

end Reckoner.Typing.Counted
