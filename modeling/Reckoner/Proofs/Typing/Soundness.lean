import Mathlib
import Reckoner.Proofs.Eval.Fuel
import Reckoner.Proofs.Session.Reachable
import Reckoner.Proofs.Typing.Acceptance
import Reckoner.Proofs.Typing.Reducibility

/-! # Checked expressions evaluate

A check and an evaluation walk through scopes of the same form: where the one declares the
parameters of a function, the other binds the arguments of a call.  By induction on how deep a check
nests, what it accepts yields the type it gives, on a stack with room for some number of frames that
depends on the check alone.
-/
namespace Reckoner

namespace Typing

open Eval (Yields)

/-- A scope of an evaluation that a scope of a check stands for: both start from the same table, and
every activation binds arguments that yield the types of the declared parameters. -/
inductive Models (bound : Nat) (t : Table) : Scope → Scope → Prop where
  | root : Models bound t (.ofTable t) (.ofTable t)
  | activate {s c : Scope} {ps : List Parameter} {args : List Expr} (h : Models bound t s c)
      (hps : ∀ p ∈ ps, p.ty.Simple)
      (hargs : List.Forall₂ (fun p a => Yields bound p.ty s a) ps args) :
      Models bound t (s.activate ps args) (c.declare ps)

namespace Models

variable {bound : Nat} {t : Table} {s c : Scope}

theorem mono {bound' : Nat} (h : Models bound t s c) (hle : bound ≤ bound') :
    Models bound' t s c := by
  induction h with
  | root => exact .root
  | activate _ hps hargs ih => exact .activate ih hps (hargs.imp fun _ _ ha => ha.mono hle)

theorem ne_nil (h : Models bound t s c) : s ≠ [] := by
  cases h <;> exact List.cons_ne_nil _ _

/-- What a check finds under a name is a binding of the table, which an evaluation finds as well, or
a parameter, for which an evaluation finds an argument. -/
theorem owner? (h : Models bound t s c) {n : String} {d : Expr} {owner : Scope}
    (hd : c.owner? n = some (d, owner)) :
    (∃ f outer, owner = f :: outer ∧ f.purpose ≠ .activation) ∧
      ((t.get? n = some d ∧ s.owner? n = some (d, .ofTable t)) ∨
        ∃ p a f outer, d = .parameter p ∧ p.ty.Simple ∧ s.owner? n = some (a, f :: outer) ∧
          f.purpose = .activation ∧ outer ≠ [] ∧ Yields bound p.ty outer a) := by
  induction h with
  | root =>
    cases hget : t.get? n with
    | none =>
      rw [Scope.ofTable, Scope.owner?_cons_of_none hget] at hd
      cases hd
    | some e =>
      rw [Scope.ofTable, Scope.owner?_cons_of_some hget] at hd
      cases hd
      exact ⟨⟨_, _, rfl, by simp⟩, .inl ⟨rfl, Scope.owner?_cons_of_some hget⟩⟩
  | @activate s c ps args hs hps hargs ih =>
    have hpaired := Table.paired_ofList ((List.forall₂_and_left ps args).mpr ⟨hps, hargs⟩) n
    rcases hpaired with ⟨hdeclared, hgiven⟩ | ⟨p, a, ⟨hp, ha⟩, hdeclared, hgiven⟩
    · rw [Scope.declare, Scope.owner?_cons_of_none hdeclared] at hd
      rw [Scope.activate, Scope.owner?_cons_of_none hgiven]
      exact ih hd
    · rw [Scope.declare, Scope.owner?_cons_of_some hdeclared] at hd
      cases hd
      have howner : (s.activate ps args).owner? n = some (a, s.activate ps args) :=
        Scope.owner?_cons_of_some hgiven
      exact ⟨⟨_, _, rfl, by simp⟩, .inr ⟨p, a, _, s, rfl, hp, howner, rfl, hs.ne_nil, ha⟩⟩

theorem resolve? (h : Models bound t s c) {n : String} {d : Expr} {env : Scope}
    (hd : c.resolve? n = some (d, env)) :
    env = c ∧ ((t.get? n = some d ∧ s.resolve? n = some (d, s)) ∨
      ∃ p a outer, d = .parameter p ∧ p.ty.Simple ∧ s.resolve? n = some (a, outer) ∧
        Yields bound p.ty outer a) := by
  obtain ⟨⟨d', owner⟩, howner, heq⟩ := Option.map_eq_some_iff.mp hd
  cases heq
  obtain ⟨⟨g, rest, rfl, hg⟩, hfound⟩ := h.owner? howner
  rw [Scope.resolve?_of_not_activation howner hg] at hd
  obtain ⟨-, henv⟩ := Prod.mk.inj (Option.some.inj hd)
  refine ⟨henv.symm, ?_⟩
  rcases hfound with ⟨hget, hs⟩ | ⟨p, a, f, outer, rfl, hp, hs, hf, houter, ha⟩
  · exact .inl ⟨hget, Scope.resolve?_of_not_activation hs (by simp)⟩
  · exact .inr ⟨p, a, outer, rfl, hp, Scope.resolve?_of_activation hs hf houter, ha⟩

/-- An evaluation finds the same well-formed expression as a check, and reads it where it stands. -/
theorem resolve?_of_wellFormed (h : Models bound t s c) {n : String} {d : Expr} {env : Scope}
    (hd : c.resolve? n = some (d, env)) (hwf : d.WellFormed) : s.resolve? n = some (d, s) := by
  obtain ⟨-, ⟨-, hs⟩ | ⟨p, a, outer, rfl, -, -, -⟩⟩ := h.resolve? hd
  · exact hs
  · cases hwf

/-- A bound that may depend on one modelled scope is a bound for all of them. -/
theorem exists_bound {P : Nat → Scope → Prop}
    (h : ∀ s, Models bound t s c → ∃ b, ∀ s', Models bound t s' c → P b s') :
    ∃ b, ∀ s, Models bound t s c → P b s := by
  by_cases hex : ∃ s, Models bound t s c
  · obtain ⟨s, hs⟩ := hex
    exact h s hs
  · exact ⟨0, fun s hs => absurd ⟨s, hs⟩ hex⟩

end Models

/-- Bounds for the members of a list have a common bound. -/
theorem exists_bound_of_forall₂ {M : Scope → Prop} {tys : List Ty} {es : List Expr}
    (h : List.Forall₂ (fun ty e => ∃ b, ∀ s, M s → Yields b ty s e) tys es) :
    ∃ b, ∀ s, M s → List.Forall₂ (fun ty e => Yields b ty s e) tys es := by
  induction h with
  | nil => exact ⟨0, fun _ _ => .nil⟩
  | cons he _ ih =>
    obtain ⟨b, hb⟩ := he
    obtain ⟨b', hb'⟩ := ih
    refine ⟨max b b', fun s hs => .cons ((hb s hs).mono (Nat.le_max_left _ _)) ?_⟩
    exact (hb' s hs).imp fun _ _ h => h.mono (Nat.le_max_right _ _)

/-- What checks of at most some depth accept yields the type they give, with a number of frames that
is the same for all scopes of evaluations. -/
def Sound (t : Table) (limit room : Nat) : Prop :=
  ∀ ⦃c : Scope⦄ ⦃e : Expr⦄ ⦃ty : Ty⦄, e.WellFormed → checkWithin limit room c e = .ok ty →
    ∀ bound, ∃ bound', ∀ s, Models bound t s c → Yields bound' ty s e

variable {t : Table} {limit room : Nat} {c : Scope}

/-- The body of a checked function yields the result type for all arguments that yield the types of
the parameters. -/
theorem Sound.body (h : Sound t limit room) {m : Nat} {ps : List Parameter} {b : Expr}
    {result : Ty} (hf : (Expr.function m ps b).WellFormed)
    (hb : checkWithin limit room (c.declare ps) b = .ok result) (bound : Nat) :
    ∃ bound', ∀ s args, Models bound t s c →
      List.Forall₂ (fun p a => Yields bound p.ty s a) ps args →
        Yields bound' result (s.activate ps args) b := by
  cases hf with
  | function _ hps hwf =>
    obtain ⟨bound', hbound'⟩ := h hwf hb bound
    exact ⟨bound', fun s args hs hargs => hbound' _ (.activate hs hps hargs)⟩
  | native _ hcode =>
    cases room with
    | zero => cases hb
    | succ room =>
      have hresult := hcode.result
      cases hb
      rw [hresult]
      exact ⟨bound, fun s args hs hargs => .native hcode hs.ne_nil hargs⟩

/-- A function literal is called with literals once it is a closure, and these yield the types of
the parameters in every scope. -/
theorem Sound.function (h : Sound t limit room) {m : Nat} {ps : List Parameter} {b : Expr} {ty : Ty}
    (hwf : (Expr.function m ps b).WellFormed)
    (hcheck : checkWithin limit (room + 1) c (.function m ps b) = .ok ty) (bound : Nat) :
    ∃ bound', ∀ s, Models bound t s c → Yields bound' ty s (.function m ps b) := by
  obtain ⟨result, hb, rfl⟩ := checkWithin_function_eq_ok_iff.mp hcheck
  obtain ⟨bound', hbound'⟩ := h.body hwf hb bound
  refine ⟨bound', fun s hs => .function fun es hes => ?_⟩
  exact hbound' s es hs (hes.imp fun _ _ he => .literal he)

/-- Arguments that are accepted yield the types of the parameters. -/
theorem Sound.arguments (h : Sound t limit room) {params : List Ty} {args : List Expr}
    (hargs : ∀ a ∈ args, a.WellFormed)
    (hcheck : List.Forall₂ (fun p a => p.Simple ∧ checkWithin limit room c a = .ok p) params args)
    (bound : Nat) :
    ∃ bound', ∀ s, Models bound t s c →
      List.Forall₂ (fun p a => Yields bound' p s a) params args := by
  apply exists_bound_of_forall₂
  exact forall₂_imp_of_mem hargs hcheck fun p a hwf ha => h hwf ha.2 bound

theorem Sound.symbol (ht : t.WellFormed) (h : Sound t limit room) {n : String} {ty : Ty}
    (hcheck : checkWithin limit (room + 1) c (.symbol n) = .ok ty) (bound : Nat) :
    ∃ bound', ∀ s, Models bound t s c → Yields bound' ty s (.symbol n) := by
  obtain ⟨d, env, hn, hd⟩ := checkWithin_symbol_eq_ok_iff.mp hcheck
  apply Models.exists_bound
  intro s₀ hs₀
  obtain ⟨rfl, ⟨hget, -⟩ | ⟨p, _, _, rfl, hp, -, -⟩⟩ := hs₀.resolve? hn
  · have hwf := ht n d hget
    obtain ⟨bound', hbound'⟩ := h hwf hd bound
    exact ⟨bound' + 1, fun s hs => .symbol (hs.resolve?_of_wellFormed hn hwf) (hbound' s hs)⟩
  · cases room with
    | zero => cases hd
    | succ room =>
      cases hd
      refine ⟨bound + 1, fun s hs => ?_⟩
      obtain ⟨-, ⟨hget, -⟩ | ⟨q, a, outer, heq, -, hs, ha⟩⟩ := hs.resolve? hn
      · cases ht n _ hget
      · cases heq
        exact .symbol hs ha

/-- A call of a function literal yields the type of its body, which the arguments are bound in. -/
theorem Sound.callLiteral (h : ∀ k ≤ room, Sound t limit k) {f : String} {args : List Expr}
    {m : Nat} {ps : List Parameter} {b : Expr} {params : List Ty} {result : Ty} {env : Scope}
    (hf : c.resolve? f = some (.function m ps b, env)) (hwf : (Expr.function m ps b).WellFormed)
    (hcallee : checkWithin limit room c (.function m ps b) = .ok (.function params result))
    {bound boundArgs : Nat}
    (hargs : ∀ s, Models bound t s c → List.Forall₂ (fun p a => Yields boundArgs p s a) params args) :
    ∃ bound', ∀ s, Models bound t s c → Yields bound' result s (.call f args) := by
  cases room with
  | zero => cases hcallee
  | succ room =>
    obtain ⟨result', hb, heq⟩ := checkWithin_function_eq_ok_iff.mp hcallee
    cases heq
    obtain ⟨bound', hbound'⟩ := (h room (Nat.le_succ _)).body hwf hb (max bound boundArgs)
    refine ⟨bound' + 1, fun s hs => ?_⟩
    have hyield := List.forall₂_map_left_iff.mp (hargs s hs)
    refine .callLiteral (hs.resolve?_of_wellFormed hf hwf) hyield.length_eq ?_
    apply hbound' s args (hs.mono (Nat.le_max_left _ _))
    exact hyield.imp fun _ _ ha => ha.mono (Nat.le_max_right _ _)

/-- A call that is accepted yields the result type of what it calls. -/
theorem Sound.call (ht : t.WellFormed) (h : ∀ k ≤ room, Sound t limit k) {f : String}
    {args : List Expr} {ty : Ty} (hargs : ∀ a ∈ args, a.WellFormed)
    (hcheck : checkWithin limit (room + 1) c (.call f args) = .ok ty) (bound : Nat) :
    ∃ bound', ∀ s, Models bound t s c → Yields bound' ty s (.call f args) := by
  obtain ⟨d, env, params, hf, hcallee, hcheckArgs⟩ := checkWithin_call_eq_ok_iff.mp hcheck
  obtain ⟨boundArgs, hboundArgs⟩ := (h room (Nat.le_refl _)).arguments hargs hcheckArgs bound
  apply Models.exists_bound
  intro s₀ hs₀
  obtain ⟨rfl, ⟨hget, -⟩ | ⟨p, _, _, rfl, hp, -, -⟩⟩ := hs₀.resolve? hf
  · have hwf := ht f d hget
    by_cases hd : ∃ m ps b, d = .function m ps b
    · obtain ⟨m, ps, b, rfl⟩ := hd
      exact Sound.callLiteral h hf hwf hcallee hboundArgs
    · obtain ⟨boundCallee, hboundCallee⟩ := h room (Nat.le_refl _) hwf hcallee bound
      refine ⟨max boundCallee boundArgs + 1, fun s hs => ?_⟩
      refine .callClosure (hs.resolve?_of_wellFormed hf hwf) (fun m ps b heq => hd ⟨m, ps, b, heq⟩)
        ((hboundCallee s hs).mono (Nat.le_max_left _ _)) ?_
      exact (hboundArgs s hs).imp fun _ _ ha => ha.mono (Nat.le_max_right _ _)
  · exact absurd hcallee (checkWithin_parameter_ne_function hp)

/-- Checks of every depth are sound for a well-formed table. -/
theorem sound_all (ht : t.WellFormed) (limit room : Nat) : Sound t limit room := by
  induction room using Nat.strongRecOn with
  | ind room ih =>
    intro c e ty hwf hcheck bound
    cases room with
    | zero => cases hcheck
    | succ room =>
      have hroom : ∀ k ≤ room, Sound t limit k := fun k hk => ih k (by omega)
      cases hwf with
      | number x => cases hcheck; exact ⟨0, fun s _ => .literal (.number x)⟩
      | boolean b => cases hcheck; exact ⟨0, fun s _ => .literal (.boolean b)⟩
      | symbol n => exact (hroom room (Nat.le_refl _)).symbol ht hcheck bound
      | @binary l r op hl hr =>
        obtain ⟨right, hleft, hright, hop⟩ := checkWithin_binary_eq_ok_iff.mp hcheck
        obtain ⟨b₁, hb₁⟩ := hroom room (Nat.le_refl _) hl hleft bound
        obtain ⟨b₂, hb₂⟩ := hroom room (Nat.le_refl _) hr hright bound
        refine ⟨max b₁ b₂, fun s hs => .binary ?_ ?_ hop⟩
        · exact (hb₁ s hs).mono (Nat.le_max_left _ _)
        · exact (hb₂ s hs).mono (Nat.le_max_right _ _)
      | function m hps hb =>
        exact (hroom room (Nat.le_refl _)).function (.function m hps hb) hcheck bound
      | native m hcode =>
        exact (hroom room (Nat.le_refl _)).function (.native m hcode) hcheck bound
      | call f hargs => exact Sound.call ht hroom hargs hcheck bound

end Typing

/-- The values that a type promises: a boolean also fits `Number`, since a comparison has the type
of its operands, and a closure fits a function type with its own parameter types. -/
def Value.Fits : Ty → Value → Prop
  | .number, v => (∃ x, v = .number x) ∨ ∃ b, v = .boolean b
  | .boolean, v => ∃ b, v = .boolean b
  | .function params _, v => ∃ c, v = .function c ∧ c.params.map (·.ty) = params

theorem Value.fits_of_belongs {bound : Nat} {ty : Ty} {v : Value} (h : Eval.Belongs bound ty v) :
    v.Fits ty := by
  cases ty with
  | number => exact h
  | boolean => exact h
  | function params result =>
    obtain ⟨c, hv, hparams, -⟩ := h
    exact ⟨c, hv, hparams⟩

namespace Session

variable {t : Table} {e : Expr} {checking : Nat} {ty : Ty}

/-- A checked line of a session evaluates, if at all, to a value that fits its type, and otherwise
stops with what a check does not rule out; beyond some limit that is not the limit itself. -/
theorem Reachable.exists_bound (ht : Reachable t) (he : e.Parsed)
    (hcheck : Typing.check checking (.ofTable t) e = .ok ty) :
    ∃ bound, ∀ limit, Eval.eval limit (.ofTable t) e ≠ .error .exhausted ∧
      Eval.Ends (Eval.Tolerated bound limit) (Value.Fits ty) (Eval.eval limit (.ofTable t) e) := by
  have htable := ht.wellFormed
  obtain ⟨bound, hbound⟩ := Typing.sound_all htable checking checking he.wellFormed hcheck 0
  refine ⟨bound, fun limit => ⟨?_, ?_⟩⟩
  · apply Eval.eval_ne_exhausted limit (Prelude.bounded _) _ he.wellFormed.placed
    exact Scope.forall_ofTable fun n d hd => (htable n d hd).placed
  · exact (hbound _ .root _ (.ofLimit limit)).mono (fun _ h => h) fun _ => Value.fits_of_belongs

/-- Checked expressions do not go wrong on names, numbers of arguments or missing arguments: an
evaluation gives a value that fits the type, or stops at the limit, at operands that do not go
together or in host code. -/
theorem eval_fits_of_check (ht : Reachable t) (he : e.Parsed)
    (hcheck : Typing.check checking (.ofTable t) e = .ok ty) (limit : Nat) :
    (∃ v, Eval.eval limit (.ofTable t) e = .ok v ∧ v.Fits ty) ∨
      ∃ err, Eval.eval limit (.ofTable t) e = .error (.error err) ∧
        ((∃ n, err.cause = .recursionLimit n) ∨ (∃ a b, err.cause = .incompatible a b) ∨
          ∃ name message, err.cause = .native name message) := by
  obtain ⟨bound, hbound⟩ := ht.exists_bound he hcheck
  obtain ⟨hfuel, hends⟩ := hbound limit
  generalize Eval.eval limit (.ofTable t) e = result at hfuel hends ⊢
  cases result with
  | ok v => exact .inl ⟨v, rfl, hends⟩
  | error halt =>
    right
    cases hends with
    | exhausted => exact absurd rfl hfuel
    | incompatible a b frames => exact ⟨_, rfl, .inr (.inl ⟨a, b, rfl⟩)⟩
    | native name message frames => exact ⟨_, rfl, .inr (.inr ⟨name, message, rfl⟩)⟩
    | recursionLimit n frames h => exact ⟨_, rfl, .inl ⟨n, rfl⟩⟩

/-- A closure that an earlier line made out of a function with two lists of parameters is called. -/
theorem eval_fits_of_check_closure :
    let t := (["let add = (a: Number) -> (b: Number) -> a + b", "let more = add(#)"].foldl
      (execute 16) fresh).table
    (∃ v, Eval.eval 16 (.ofTable t) (.call "more" [.symbol "#"]) = .ok v ∧ v.Fits .number) ∨
      ∃ err, Eval.eval 16 (.ofTable t) (.call "more" [.symbol "#"]) = .error (.error err) ∧
        ((∃ n, err.cause = .recursionLimit n) ∨ (∃ a b, err.cause = .incompatible a b) ∨
          ∃ name message, err.cause = .native name message) := by
  intro t
  have ht : Reachable t := ⟨16, _, rfl⟩
  have he : (Expr.call "more" [.symbol "#"]).Parsed :=
    ⟨"more(#)", .expression (.call "more" [.symbol "#"]), by cbv, rfl⟩
  have hcheck : Typing.check 16 (.ofTable t) (.call "more" [.symbol "#"]) = .ok .number := by
    decide +kernel
  exact eval_fits_of_check ht he hcheck 16

/-- Checked expressions do not loop: from some limit on, an evaluation gives a value or an error
other than the limit. -/
theorem exists_limit_of_check (ht : Reachable t) (he : e.Parsed)
    (hcheck : Typing.check checking (.ofTable t) e = .ok ty) :
    ∃ depth, ∀ limit ≥ depth, (∃ v, Eval.eval limit (.ofTable t) e = .ok v) ∨
      ∃ err, Eval.eval limit (.ofTable t) e = .error (.error err) ∧
        ∀ n, err.cause ≠ .recursionLimit n := by
  obtain ⟨depth, hdepth⟩ := ht.exists_bound he hcheck
  refine ⟨depth, fun limit hlimit => ?_⟩
  obtain ⟨hfuel, hends⟩ := hdepth limit
  generalize Eval.eval limit (.ofTable t) e = result at hfuel hends ⊢
  cases result with
  | ok v => exact .inl ⟨v, rfl⟩
  | error halt =>
    right
    cases hends with
    | exhausted => exact absurd rfl hfuel
    | incompatible a b frames => exact ⟨_, rfl, by simp⟩
    | native name message frames => exact ⟨_, rfl, by simp⟩
    | recursionLimit n frames h => omega

/-- A function is called on itself, so that its argument is evaluated many times. -/
theorem exists_limit_of_check_nested :
    let t := (["let twice = (x: Number) -> x + x", "twice(#)"].foldl (execute 16) fresh).table
    ∃ depth, ∀ limit ≥ depth,
      (∃ v, Eval.eval limit (.ofTable t) (.call "twice" [.symbol "#"]) = .ok v) ∨
        ∃ err, Eval.eval limit (.ofTable t) (.call "twice" [.symbol "#"]) = .error (.error err) ∧
          ∀ n, err.cause ≠ .recursionLimit n := by
  intro t
  have ht : Reachable t := ⟨16, _, rfl⟩
  have he : (Expr.call "twice" [.symbol "#"]).Parsed :=
    ⟨"twice(#)", .expression (.call "twice" [.symbol "#"]), by cbv, rfl⟩
  have hcheck : Typing.check 16 (.ofTable t) (.call "twice" [.symbol "#"]) = .ok .number := by
    decide +kernel
  exact exists_limit_of_check ht he hcheck

end Session

end Reckoner
