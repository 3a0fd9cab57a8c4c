import Mathlib
import Reckoner.Proofs.Eval.Fuel
import Reckoner.Proofs.Session.Reachable
import Reckoner.Proofs.Typing.Acceptance
import Reckoner.Proofs.Typing.Substitution

/-! # Checks in the scopes of evaluations

A check of a function declares its parameters; a call binds them to arguments as they were written.
What is checked in the one scope has the same type in the other, since a parameter gives way to an
argument that was checked itself.  A check needs more room there: each call that the scope is inside
of may add as much as the check of its arguments needs.
-/
namespace Reckoner

/-- Expressions in which no operator compares its operands. -/
inductive Expr.ComparisonFree : Expr → Prop where
  | number (x : Float) : ComparisonFree (.number x)
  | boolean (b : Bool) : ComparisonFree (.boolean b)
  | symbol (n : String) : ComparisonFree (.symbol n)
  | binary {op : Operator} {l r : Expr} (hop : op.category = .arithmetic) (hl : ComparisonFree l)
      (hr : ComparisonFree r) : ComparisonFree (.binary op l r)
  | parameter (p : Parameter) : ComparisonFree (.parameter p)
  | function {b : Expr} (m : Nat) (ps : List Parameter) (hb : ComparisonFree b) :
      ComparisonFree (.function m ps b)
  | call {args : List Expr} (f : String) (h : ∀ a ∈ args, ComparisonFree a) :
      ComparisonFree (.call f args)
  | native (code : NativeCode) : ComparisonFree (.native code)

def Table.ComparisonFree (t : Table) : Prop :=
  ∀ n e, t.get? n = some e → e.ComparisonFree

theorem Expr.LiteralOf.comparisonFree {ty : Ty} {e : Expr} (h : e.LiteralOf ty) :
    e.ComparisonFree := by
  cases h with
  | number x => exact .number x
  | boolean b => exact .boolean b

theorem Expr.WellFormed.simple {m : Nat} {ps : List Parameter} {b : Expr}
    (h : (Expr.function m ps b).WellFormed) : ∀ p ∈ ps, p.ty.Simple := by
  cases h with
  | function _ hps _ => exact hps
  | native _ hcode => exact fun p hp => .inl (hcode.numbers p hp)

/-- Arithmetic takes numbers only. -/
theorem Ty.number_of_arithmetic {a b : Ty} (h : compatibleFor .arithmetic a b = true) :
    a = .number ∧ b = .number := by
  cases a <;> cases b <;> simp_all [compatibleFor, arithmeticCompatible]

/-- The number of calls that a scope is inside of. -/
def Scope.activations (s : Scope) : Nat :=
  s.countP (·.purpose = .activation)

@[simp] theorem Scope.activations_activate (s : Scope) (ps : List Parameter) (args : List Expr) :
    (s.activate ps args).activations = s.activations + 1 := by
  simp [activate, activations]

@[simp] theorem Scope.activations_declare (s : Scope) (ps : List Parameter) :
    (s.declare ps).activations = s.activations := by
  simp [declare, activations]

namespace Scope

variable {s outer : Scope} {n : String} {e : Expr} {f : Frame}

/-- A scope with one more frame is inside of no fewer calls. -/
theorem activations_le_cons (f : Frame) (s : Scope) : activations s ≤ activations (f :: s) :=
  (List.sublist_cons_self f s).countP_le

/-- A name is bound to the argument of a call, which was written in the scope `outer`. -/
def BindsArgument (s : Scope) (n : String) (e : Expr) (outer : Scope) : Prop :=
  ∃ f, s.owner? n = some (e, f :: outer) ∧ f.purpose = .activation ∧ outer ≠ []

theorem BindsArgument.resolve? (h : s.BindsArgument n e outer) : s.resolve? n = some (e, outer) := by
  obtain ⟨f, howner, hf, hne⟩ := h
  exact resolve?_of_activation howner hf hne

theorem BindsArgument.cons (h : s.BindsArgument n e outer) (hf : f.table.get? n = none) :
    BindsArgument (f :: s) n e outer := by
  obtain ⟨g, howner, hg, hne⟩ := h
  exact ⟨g, (owner?_cons_of_none hf).trans howner, hg, hne⟩

end Scope

namespace Typing

/-- With more room, and whatever limit is reported, a check gives the same type. -/
theorem checkWithin_eq_ok_of_le {limit limit' room room' : Nat} {c : Scope} {e : Expr} {ty : Ty}
    (h : checkWithin limit room c e = .ok ty) (hle : room ≤ room') :
    checkWithin limit' room' c e = .ok ty := by
  have hfollows : Follows TypeError.IsLimit Eq (checkWithin limit room c e)
      (checkWithin limit' room' c e) := checkWithin_follows hle (.refl _ "" (.number 0) e)
  rw [h] at hfollows
  obtain ⟨_, h', rfl⟩ := hfollows
  exact h'

/-- A well-formed expression without comparisons that a check gives a type. -/
structure Checked (limit : Nat) (c : Scope) (e : Expr) (ty : Ty) : Prop where
  wellFormed : e.WellFormed
  comparisonFree : e.ComparisonFree
  check : check limit c e = .ok ty

namespace Checked

variable {limit : Nat} {c : Scope} {ty : Ty}

theorem limit_ne_zero {e : Expr} (h : Checked limit c e ty) : limit ≠ 0 := by
  rintro rfl
  cases h.check

theorem literal {e : Expr} (h : e.LiteralOf ty) (hlimit : limit ≠ 0) : Checked limit c e ty := by
  obtain ⟨room, rfl⟩ := Nat.exists_eq_succ_of_ne_zero hlimit
  refine ⟨h.wellFormed, h.comparisonFree, ?_⟩
  cases h <;> rfl

theorem symbol {n : String} (h : Checked limit c (.symbol n) ty) :
    ∃ d env, c.resolve? n = some (d, env) ∧ Typing.check limit env d = .ok ty := by
  obtain ⟨-, -, h⟩ := h
  cases limit with
  | zero => cases h
  | succ room =>
    obtain ⟨d, env, hn, hd⟩ := checkWithin_symbol_eq_ok_iff.mp h
    exact ⟨d, env, hn, checkWithin_eq_ok_of_le hd (Nat.le_succ room)⟩

theorem binary {op : Operator} {l r : Expr} (h : Checked limit c (.binary op l r) ty) :
    op.category = .arithmetic ∧ ty = .number ∧ Checked limit c l .number ∧
      Checked limit c r .number := by
  obtain ⟨hwf, hfree, h⟩ := h
  cases limit with
  | zero => cases h
  | succ room =>
    obtain ⟨right, hl, hr, hop⟩ := checkWithin_binary_eq_ok_iff.mp h
    cases hwf with
    | binary _ hlwf hrwf =>
      cases hfree with
      | binary hcategory hlfree hrfree =>
        rw [hcategory] at hop
        obtain ⟨rfl, rfl⟩ := Ty.number_of_arithmetic hop
        exact ⟨hcategory, rfl, ⟨hlwf, hlfree, checkWithin_eq_ok_of_le hl (Nat.le_succ room)⟩,
          ⟨hrwf, hrfree, checkWithin_eq_ok_of_le hr (Nat.le_succ room)⟩⟩

theorem function {m : Nat} {ps : List Parameter} {b : Expr}
    (h : Checked limit c (.function m ps b) ty) :
    ∃ result, ty = .function (ps.map (·.ty)) result ∧
      Typing.check limit (c.declare ps) b = .ok result := by
  obtain ⟨-, -, h⟩ := h
  cases limit with
  | zero => cases h
  | succ room =>
    obtain ⟨result, hb, hty⟩ := checkWithin_function_eq_ok_iff.mp h
    exact ⟨result, hty, checkWithin_eq_ok_of_le hb (Nat.le_succ room)⟩

theorem call {f : String} {args : List Expr} (h : Checked limit c (.call f args) ty) :
    ∃ d env params, c.resolve? f = some (d, env) ∧
      Typing.check limit env d = .ok (.function params ty) ∧
      List.Forall₂ (fun p a => p.Simple ∧ Checked limit c a p) params args := by
  obtain ⟨hwf, hfree, h⟩ := h
  cases limit with
  | zero => cases h
  | succ room =>
    obtain ⟨d, env, params, hf, hd, hargs⟩ := checkWithin_call_eq_ok_iff.mp h
    refine ⟨d, env, params, hf, checkWithin_eq_ok_of_le hd (Nat.le_succ room), ?_⟩
    cases hwf with
    | call _ hargswf =>
      cases hfree with
      | call _ hargsfree =>
        have hparts : ∀ a ∈ args, a.WellFormed ∧ a.ComparisonFree :=
          fun a ha => ⟨hargswf a ha, hargsfree a ha⟩
        refine forall₂_imp_of_mem hparts hargs ?_
        rintro p a ⟨hawf, hafree⟩ ⟨hsimple, ha⟩
        exact ⟨hsimple, hawf, hafree, checkWithin_eq_ok_of_le ha (Nat.le_succ room)⟩

end Checked

/-- A scope beside the scope of a check that it is a run-time form of: both start from the same table,
and what the check declares is declared there as well, or bound to arguments that are checked where
they were written. -/
inductive Mirrors (limit : Nat) (t : Table) : Scope → Scope → Prop where
  | root : Mirrors limit t (.ofTable t) (.ofTable t)
  | activate {s c : Scope} {ps : List Parameter} {args : List Expr} (h : Mirrors limit t s c)
      (hps : ∀ p ∈ ps, p.ty.Simple)
      (hargs : List.Forall₂ (fun p a => Checked limit c a p.ty) ps args) :
      Mirrors limit t (s.activate ps args) (c.declare ps)
  | declare {s c : Scope} {ps : List Parameter} (h : Mirrors limit t s c)
      (hps : ∀ p ∈ ps, p.ty.Simple) : Mirrors limit t (s.declare ps) (c.declare ps)

namespace Mirrors

variable {limit : Nat} {t : Table} {s c : Scope} {n : String} {d : Expr}

theorem ne_nil (h : Mirrors limit t s c) : s ≠ [] := by
  cases h <;> exact List.cons_ne_nil _ _

/-- What an evaluation finds under a name for which a check finds `d`: the same, or an argument in the
place of a parameter. -/
inductive Finds (limit : Nat) (t : Table) (s : Scope) (n : String) (d : Expr) : Prop where
  | binding (hd : t.get? n = some d) (h : s.Binds n d)
  | parameter {p : Parameter} (hd : d = .parameter p) (hp : p.ty.Simple) (h : s.Binds n d)
  | argument {p : Parameter} {a : Expr} {outer c : Scope} (hd : d = .parameter p)
      (hp : p.ty.Simple) (h : s.BindsArgument n a outer)
      (hlt : outer.activations < s.activations) (hmirrors : Mirrors limit t outer c)
      (ha : Checked limit c a p.ty) : Finds limit t s n d

theorem Finds.cons {f : Frame} (hf : f.table.get? n = none) (h : Finds limit t s n d) :
    Finds limit t (f :: s) n d := by
  cases h with
  | binding hd h => exact .binding hd (h.cons hf)
  | parameter hd hp h => exact .parameter hd hp (h.cons hf)
  | argument hd hp h hlt hmirrors ha =>
    exact .argument hd hp (h.cons hf) (hlt.trans_le (Scope.activations_le_cons f s)) hmirrors ha

/-- What is called is a binding of the table, since parameters are no functions. -/
theorem Finds.callee {room : Nat} {params : List Ty} {result : Ty} (h : Finds limit t s n d)
    (hd : checkWithin limit room c d = .ok (.function params result)) :
    t.get? n = some d ∧ s.Binds n d := by
  cases h with
  | binding hget hs => exact ⟨hget, hs⟩
  | parameter heq hp _ =>
    subst heq
    exact absurd hd (checkWithin_parameter_ne_function hp)
  | argument heq hp _ _ _ _ =>
    subst heq
    exact absurd hd (checkWithin_parameter_ne_function hp)

theorem finds (h : Mirrors limit t s c) {owner : Scope} (hd : c.owner? n = some (d, owner)) :
    c.Binds n d ∧ Finds limit t s n d := by
  induction h with
  | root =>
    rw [Scope.owner?_ofTable] at hd
    obtain ⟨e, hget, heq⟩ := Option.map_eq_some_iff.mp hd
    cases heq
    exact ⟨Scope.binds_ofTable hget, .binding hget (Scope.binds_ofTable hget)⟩
  | @activate s c ps args h hps hargs ih =>
    rcases Table.paired_ofList ((List.forall₂_and_left ps args).mpr ⟨hps, hargs⟩) n with
      ⟨hdeclared, hgiven⟩ | ⟨p, a, ⟨hp, ha⟩, hdeclared, hgiven⟩
    · rw [Scope.declare, Scope.owner?_cons_of_none hdeclared] at hd
      obtain ⟨hc, hfound⟩ := ih hd
      exact ⟨hc.cons hdeclared, hfound.cons hgiven⟩
    · rw [Scope.declare, Scope.owner?_cons_of_some hdeclared] at hd
      cases hd
      refine ⟨Scope.binds_declare hdeclared, .argument rfl hp ?_ ?_ h ha⟩
      · exact ⟨_, Scope.owner?_cons_of_some hgiven, rfl, h.ne_nil⟩
      · simp
  | @declare s c ps h hps ih =>
    cases hdeclared : (Table.ofList (ps.map fun p => (p.name, .parameter p))).get? n with
    | none =>
      rw [Scope.declare, Scope.owner?_cons_of_none hdeclared] at hd
      obtain ⟨hc, hfound⟩ := ih hd
      exact ⟨hc.cons hdeclared, hfound.cons hdeclared⟩
    | some e =>
      rw [Scope.declare, Scope.owner?_cons_of_some hdeclared] at hd
      cases hd
      obtain ⟨p, hp, heq⟩ := List.mem_map.mp (Table.mem_of_get?_ofList hdeclared)
      cases heq
      have hbinds : ∀ outer : Scope, (outer.declare ps).Binds p.name (.parameter p) :=
        fun _ => Scope.binds_declare hdeclared
      exact ⟨hbinds c, .parameter rfl (hps p hp) (hbinds s)⟩

theorem resolve? (h : Mirrors limit t s c) {env : Scope} (hn : c.resolve? n = some (d, env)) :
    env = c ∧ Finds limit t s n d := by
  obtain ⟨⟨d', owner⟩, howner, heq⟩ := Option.map_eq_some_iff.mp hn
  cases heq
  obtain ⟨hc, hfound⟩ := h.finds howner
  rw [hc.resolve?] at hn
  exact ⟨(Prod.mk.inj (Option.some.inj hn)).2.symm, hfound⟩

/-- Checks with some room give the types that checks give where parameters are declared.  The room has
to be larger by as much as the arguments in the place of the parameters need. -/
def Carries (limit : Nat) (t : Table) (limit' room' : Nat) : Prop :=
  ∀ ⦃s c : Scope⦄ ⦃e : Expr⦄ ⦃ty : Ty⦄ ⦃room : Nat⦄, Mirrors limit t s c → e.WellFormed →
    checkWithin limit room c e = .ok ty → room + s.activations * limit ≤ room' →
      checkWithin limit' room' s e = .ok ty

/-- What is found under a name has the type that the check has found for the name. -/
theorem Carries.found {limit' room room' : Nat} (ih : Carries limit t limit' room')
    (ht : t.WellFormed) (h : Mirrors limit t s c) (hfound : Finds limit t s n d) {ty : Ty}
    (hd : checkWithin limit room c d = .ok ty) (hle : room + s.activations * limit ≤ room') :
    ∃ e env, s.resolve? n = some (e, env) ∧ checkWithin limit' room' env e = .ok ty := by
  cases hfound with
  | binding hget hs => exact ⟨d, s, hs.resolve?, ih h (ht n d hget) hd hle⟩
  | @parameter p heq _ hs =>
    subst heq
    cases room with
    | zero => cases hd
    | succ room =>
      obtain ⟨k, rfl⟩ : ∃ k, room' = k + 1 := ⟨room' - 1, by omega⟩
      exact ⟨_, s, hs.resolve?, hd⟩
  | @argument p a outer c heq _ hs hlt hmirrors ha =>
    -- The argument is checked anew, inside of one call less.
    subst heq
    cases room with
    | zero => cases hd
    | succ room =>
      cases hd
      refine ⟨a, outer, hs.resolve?, ih hmirrors ha.wellFormed ha.check ?_⟩
      calc limit + outer.activations * limit
          = (outer.activations + 1) * limit := by rw [Nat.succ_mul, Nat.add_comm]
        _ ≤ s.activations * limit := Nat.mul_le_mul_right limit hlt
        _ ≤ room' := by omega

theorem carries_all (ht : t.WellFormed) (limit limit' room' : Nat) :
    Carries limit t limit' room' := by
  induction room' with
  | zero =>
    intro s c e ty room h hwf hcheck hroom
    obtain rfl : room = 0 := by omega
    cases hcheck
  | succ room' ih =>
    intro s c e ty room h hwf hcheck hroom
    cases room with
    | zero => cases hcheck
    | succ room =>
      have hle : room + s.activations * limit ≤ room' := by omega
      cases hwf with
      | number x => exact hcheck
      | boolean b => exact hcheck
      | symbol n =>
        obtain ⟨d, env, hn, hd⟩ := checkWithin_symbol_eq_ok_iff.mp hcheck
        obtain ⟨rfl, hfound⟩ := h.resolve? hn
        exact checkWithin_symbol_eq_ok_iff.mpr (ih.found ht h hfound hd hle)
      | @binary l r op hl hr =>
        obtain ⟨right, hlcheck, hrcheck, hop⟩ := checkWithin_binary_eq_ok_iff.mp hcheck
        exact checkWithin_binary_eq_ok_iff.mpr
          ⟨right, ih h hl hlcheck hle, ih h hr hrcheck hle, hop⟩
      | function m hps hb =>
        obtain ⟨result, hbcheck, hty⟩ := checkWithin_function_eq_ok_iff.mp hcheck
        refine checkWithin_function_eq_ok_iff.mpr ⟨result, ih (.declare h hps) hb hbcheck ?_, hty⟩
        rwa [Scope.activations_declare]
      | native m hcode =>
        obtain ⟨result, hbcheck, hty⟩ := checkWithin_function_eq_ok_iff.mp hcheck
        refine checkWithin_function_eq_ok_iff.mpr ⟨result, ?_, hty⟩
        cases room with
        | zero => cases hbcheck
        | succ room =>
          obtain ⟨k, rfl⟩ : ∃ k, room' = k + 1 := ⟨room' - 1, by omega⟩
          exact hbcheck
      | @call args f hargs =>
        obtain ⟨d, env, params, hf, hd, hchecks⟩ := checkWithin_call_eq_ok_iff.mp hcheck
        obtain ⟨rfl, hfound⟩ := h.resolve? hf
        obtain ⟨hget, hs⟩ := hfound.callee hd
        refine checkWithin_call_eq_ok_iff.mpr
          ⟨d, s, params, hs.resolve?, ih h (ht f d hget) hd hle, ?_⟩
        exact forall₂_imp_of_mem hargs hchecks fun p a hwf ha => ⟨ha.1, ih h hwf ha.2 hle⟩

end Mirrors

end Typing

end Reckoner
