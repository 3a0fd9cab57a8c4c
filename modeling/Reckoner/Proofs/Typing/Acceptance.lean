import Mathlib
import Reckoner.Proofs.Expr.WellFormed
import Reckoner.Typing.Check

/-! # What a check accepts

For each kind of expression, the types that a check with room for one level more gives it, in terms
of the checks of its parts.
-/
namespace Reckoner.Typing

/-- What is known of each argument can be used at each pair of a parameter and its argument. -/
theorem forall₂_imp_of_mem {α : Type} {P : Expr → Prop} {R Q : α → Expr → Prop} {ps : List α}
    {args : List Expr} (hargs : ∀ a ∈ args, P a) (h : List.Forall₂ R ps args)
    (himp : ∀ p a, P a → R p a → Q p a) : List.Forall₂ Q ps args := by
  have hboth := (List.forall₂_and_left args ps).mpr ⟨hargs, h.flip⟩
  exact hboth.flip.imp fun p a ha => himp p a ha.1 ha.2

variable {limit room : Nat} {c : Scope} {ty : Ty}

theorem checkWithin_symbol_eq_ok_iff {n : String} :
    checkWithin limit (room + 1) c (.symbol n) = .ok ty ↔
      ∃ d env, c.resolve? n = some (d, env) ∧ checkWithin limit room env d = .ok ty := by
  rw [checkWithin]
  cases c.resolve? n with
  | none => simp
  | some found =>
    obtain ⟨d, env⟩ := found
    simp

theorem checkWithin_binary_eq_ok_iff {op : Operator} {l r : Expr} :
    checkWithin limit (room + 1) c (.binary op l r) = .ok ty ↔
      ∃ right, checkWithin limit room c l = .ok ty ∧ checkWithin limit room c r = .ok right ∧
        Ty.compatibleFor op.category ty right = true := by
  rw [checkWithin, bind_eq_ok_iff]
  constructor
  · rintro ⟨left, hl, h⟩
    obtain ⟨right, hr, h⟩ := bind_eq_ok_iff.mp h
    split at h
    · cases h
      exact ⟨right, hl, hr, ‹_›⟩
    · cases h
  · rintro ⟨right, hl, hr, hop⟩
    refine ⟨ty, hl, bind_eq_ok_iff.mpr ⟨right, hr, ?_⟩⟩
    rw [if_pos hop, Ty.combine]

theorem checkWithin_function_eq_ok_iff {m : Nat} {ps : List Parameter} {b : Expr} :
    checkWithin limit (room + 1) c (.function m ps b) = .ok ty ↔
      ∃ result, checkWithin limit room (c.declare ps) b = .ok result ∧
        ty = .function (ps.map (·.ty)) result := by
  rw [checkWithin, bind_eq_ok_iff]
  simp only [Except.ok.injEq, eq_comm]

/-- A parameter is a number or a boolean, so it cannot be called. -/
theorem checkWithin_parameter_ne_function {p : Parameter} (hp : p.ty.Simple) {params : List Ty}
    {result : Ty} : checkWithin limit room c (.parameter p) ≠ .ok (.function params result) := by
  intro h
  cases room with
  | zero => cases h
  | succ room =>
    have hty : p.ty = .function params result := Except.ok.inj h
    rcases hp with hp | hp <;> rw [hp] at hty <;> cases hty

/-- Arguments are accepted if each has the type of its parameter, which is no function type. -/
theorem checkArguments_eq_ok_iff {check : Expr → Result} {params : List Ty} {args : List Expr}
    (hlen : params.length = args.length) :
    checkArguments check params args = .ok () ↔
      List.Forall₂ (fun p a => p.Simple ∧ check a = .ok p) params args := by
  induction params generalizing args with
  | nil =>
    rw [List.eq_nil_of_length_eq_zero hlen.symm]
    exact ⟨fun _ => .nil, fun _ => rfl⟩
  | cons p params ih =>
    cases args with
    | nil => cases hlen
    | cons a args =>
      rw [checkArguments, bind_eq_ok_iff, List.forall₂_cons, ← ih (Nat.succ.inj hlen)]
      constructor
      · rintro ⟨ty, hty, h⟩
        split at h
        · rename_i hcompatible
          obtain ⟨rfl, hsimple⟩ := Ty.compatible_iff.mp hcompatible
          exact ⟨⟨hsimple, hty⟩, h⟩
        · cases h
      · rintro ⟨⟨hsimple, hty⟩, h⟩
        refine ⟨p, hty, ?_⟩
        rwa [if_pos (Ty.compatible_iff.mpr ⟨rfl, hsimple⟩)]

theorem checkWithin_call_eq_ok_iff {f : String} {args : List Expr} :
    checkWithin limit (room + 1) c (.call f args) = .ok ty ↔
      ∃ d env params, c.resolve? f = some (d, env) ∧
        checkWithin limit room env d = .ok (.function params ty) ∧
        List.Forall₂ (fun p a => p.Simple ∧ checkWithin limit room c a = .ok p) params args := by
  rw [checkWithin]
  constructor
  · intro h
    split at h
    · cases h
    · rename_i d env hf
      obtain ⟨callee, hcallee, h⟩ := bind_eq_ok_iff.mp h
      split at h
      · rename_i params result
        split at h
        · rename_i hlen
          obtain ⟨_, hargs, hresult⟩ := bind_eq_ok_iff.mp h
          cases hresult
          exact ⟨d, env, params, hf, hcallee, (checkArguments_eq_ok_iff hlen).mp hargs⟩
        · cases h
      · cases h
  · rintro ⟨d, env, params, hf, hcallee, hargs⟩
    have haccepted := (checkArguments_eq_ok_iff hargs.length_eq).mpr hargs
    simp [hf, hcallee, hargs.length_eq, haccepted]

end Reckoner.Typing
