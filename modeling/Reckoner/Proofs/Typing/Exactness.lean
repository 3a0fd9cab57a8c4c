import Mathlib
import Reckoner.Proofs.Eval.Halting
import Reckoner.Proofs.Session.Binding
import Reckoner.Proofs.Typing.Mirrors

/-! # Exact types

A comparison has the type of its operands, so a value of type `Number` may be a boolean.  Without
comparisons the types are exact: the value of a checked expression has the type of the expression,
and nothing but the limit stops its evaluation.  A closure has a type of its own, which a check of its
body gives in the scope that the closure has captured.
-/
namespace Reckoner

/-- Arithmetic on numbers gives a number. -/
theorem Operator.apply_of_arithmetic {op : Operator} (hop : op.category = .arithmetic)
    (x y : Float) : ∃ z, op.apply (.number x) (.number y) = .ok (.number z) := by
  cases op <;> cases hop <;> exact ⟨_, rfl⟩

theorem MathFunction.numbers_eq_ok {vs : List Value} (h : ∀ v ∈ vs, ∃ x, v = .number x) :
    ∃ xs, numbers vs = .ok xs ∧ xs.length = vs.length := by
  induction vs with
  | nil => exact ⟨[], rfl, rfl⟩
  | cons v vs ih =>
    obtain ⟨⟨x, rfl⟩, hvs⟩ := List.forall_mem_cons.mp h
    obtain ⟨xs, hxs, hlen⟩ := ih hvs
    refine ⟨x :: xs, ?_, congrArg Nat.succ hlen⟩
    rw [numbers, hxs]
    rfl

theorem MathFunction.apply_numbers {f : MathFunction} {vs : List Value}
    (hlen : vs.length = f.arity) (h : ∀ v ∈ vs, ∃ x, v = .number x) :
    ∃ x, f.apply vs = .ok (.number x) := by
  obtain ⟨xs, hxs, hxslen⟩ := numbers_eq_ok h
  obtain ⟨x, hx⟩ := Option.isSome_iff_exists.mp
    ((compute?_isSome_iff f xs).mpr (hxslen.trans hlen))
  refine ⟨x, ?_⟩
  simp [apply, hlen, hxs, hx]

/-- Host code that fits some parameters gives a number for as many numbers. -/
theorem NativeCode.Fits.run_numbers {code : NativeCode} {ps : List Parameter} (h : code.Fits ps)
    {vs : List Value} (hlen : vs.length = ps.length) (hvs : ∀ v ∈ vs, ∃ x, v = .number x) :
    ∃ x, Prelude.host.run code.host vs = .ok (.number x) := by
  obtain ⟨f, hf, harity⟩ := h.computes
  rw [Prelude.run_eq, hf]
  exact MathFunction.apply_numbers (hlen.trans harity.symm) hvs

namespace Typing

/-- The values of a type.  A closure has the type that a check gives its function literal, in a scope
that the captured scope is a run-time form of. -/
inductive HasType (limit : Nat) (t : Table) : Ty → Value → Prop where
  | number (x : Float) : HasType limit t .number (.number x)
  | boolean (b : Bool) : HasType limit t .boolean (.boolean b)
  | function {closure : Closure} {c : Scope} {params : List Ty} {result : Ty}
      (h : Mirrors limit t closure.scope c)
      (hc : Checked limit c closure.literal (.function params result)) :
      HasType limit t (.function params result) (.function closure)

namespace HasType

variable {limit : Nat} {t : Table} {ty : Ty} {v : Value}

theorem simpleType? (h : HasType limit t ty v) (hty : ty.Simple) : v.simpleType? = some ty := by
  cases h with
  | number x => rfl
  | boolean b => rfl
  | function _ _ => rcases hty with hty | hty <;> cases hty

theorem number_of {v : Value} (h : HasType limit t .number v) : ∃ x, v = .number x := by
  cases h with
  | number x => exact ⟨x, rfl⟩

theorem exists_closure {params : List Ty} {result : Ty}
    (h : HasType limit t (.function params result) v) : ∃ closure, v = .function closure := by
  cases h with
  | function _ _ => exact ⟨_, rfl⟩

theorem arity_eq {closure : Closure} {params : List Ty} {result : Ty}
    (h : HasType limit t (.function params result) (.function closure)) :
    closure.arity = params.length := by
  cases h with
  | function _ hc =>
    obtain ⟨_, heq, -⟩ := hc.function
    cases heq
    rw [List.length_map, Closure.arity]

/-- The type of a value is found by a check of the value itself, if the limit is high enough. -/
theorem exists_type_eq (ht : t.WellFormed) (h : HasType limit t ty v) :
    ∃ bound, ∀ limit' ≥ bound, v.type limit' = .ok ty := by
  cases h with
  | number x => exact ⟨0, fun _ _ => rfl⟩
  | boolean b => exact ⟨0, fun _ _ => rfl⟩
  | @function closure c params result h hc =>
    refine ⟨limit + closure.scope.activations * limit, fun limit' hlimit' => ?_⟩
    have hliteral : checkWithin limit' (limit' + 1) closure.scope closure.literal = .ok _ :=
      Mirrors.carries_all ht limit limit' _ h hc.wellFormed hc.check (Nat.le_succ_of_le hlimit')
    exact hliteral

end HasType

end Typing

namespace Eval

open Typing (Checked HasType Mirrors)

/-- What stops an evaluation only because of its bounds. -/
inductive Cut : Halt → Prop where
  | exhausted : Cut .exhausted
  | recursionLimit (limit : Nat) (frames : Backtrace) :
      Cut (.error ⟨.recursionLimit limit, frames⟩)

/-- Evaluations with some fuel give values of the types that checks give. -/
def Exact (limit : Nat) (t : Table) (fuel : Nat) : Prop :=
  ∀ ⦃stack : CallStack⦄ ⦃s c : Scope⦄ ⦃e : Expr⦄ ⦃ty : Ty⦄, Mirrors limit t s c →
    Checked limit c e ty → Ends Cut (HasType limit t ty) (Prelude.host.evalWithin fuel stack s e)

namespace Exact

variable {limit fuel : Nat} {t : Table} {stack : CallStack} {s c : Scope} {ty : Ty}

theorem enter {frame : StackFrame} {run : CallStack → Result}
    (h : ∀ inner, Ends Cut (HasType limit t ty) (run inner)) :
    Ends Cut (HasType limit t ty) (enter stack frame run) :=
  Ends.enter (fun _ => .recursionLimit _ _) fun inner _ => h inner

/-- A parameter without an argument has a value of its type by default. -/
theorem parameter {p : Parameter} (hp : p.ty.Simple) :
    Ends Cut (HasType limit t p.ty) (Prelude.host.evalWithin fuel stack s (.parameter p)) := by
  cases fuel with
  | zero => exact .exhausted
  | succ fuel =>
    rw [Host.evalWithin]
    rcases hp with hp | hp <;> rw [hp]
    · exact .number _
    · exact .boolean _

/-- The body of a checked function gives a value of the result type, for all arguments that are
checked. -/
theorem body (h : ∀ k ≤ fuel, Exact limit t k) (hs : Mirrors limit t s c) {m : Nat}
    {ps : List Parameter} {b : Expr} {params : List Ty}
    (hf : Checked limit c (.function m ps b) (.function params ty)) {args : List Expr}
    (hargs : List.Forall₂ (fun p a => Checked limit c a p.ty) ps args) :
    Ends Cut (HasType limit t ty) (Prelude.host.evalWithin fuel stack (s.activate ps args) b) := by
  obtain ⟨result, heq, hb⟩ := hf.function
  cases heq
  have hscope := Mirrors.activate hs hf.wellFormed.simple hargs
  cases hf.wellFormed with
  | function _ _ hwf =>
    cases hf.comparisonFree with
    | function _ _ hfree => exact h fuel (Nat.le_refl _) hscope ⟨hwf, hfree, hb⟩
  | @native _ code _ hcode =>
    cases fuel with
    | zero => exact .exhausted
    | succ fuel =>
      rw [Host.evalWithin]
      have hread : ∀ n ∈ code.params, ∃ a, (s.activate ps args).resolve? n = some (a, s) ∧
          Checked limit c a .number := by
        intro n hn
        obtain ⟨p, a, hp, ha, hn⟩ := hcode.resolve? hs.ne_nil hargs hn
        exact ⟨a, hn, hp ▸ ha⟩
      have hvalues : Ends Cut
          (fun vs => vs.length = code.params.length ∧ ∀ v ∈ vs, HasType limit t .number v)
          (readArguments (Prelude.host.evalWithin fuel stack) stack (s.activate ps args)
            code.params) := by
        apply Ends.readArguments
        · intro n hn hnone
          obtain ⟨a, ha, -⟩ := hread n hn
          rw [ha] at hnone
          cases hnone
        · intro n hn d env hd
          obtain ⟨a, ha, hchecked⟩ := hread n hn
          rw [ha] at hd
          cases hd
          exact h fuel (Nat.le_succ _) hs hchecked
      refine hvalues.bind fun vs hvs => ?_
      have hlen : vs.length = ps.length := by rw [hvs.1, hcode.names, List.length_map]
      obtain ⟨x, hx⟩ := hcode.run_numbers hlen fun v hv => (hvs.2 v hv).number_of
      have hresult : ty = .number := by
        obtain ⟨room, rfl⟩ := Nat.exists_eq_succ_of_ne_zero hf.limit_ne_zero
        exact (Except.ok.inj hb).symm.trans hcode.result
      rw [hx, hresult]
      exact .number x

/-- A closure gives a value of its result type for values of the types of its parameters. -/
theorem callClosure (h : ∀ k ≤ fuel, Exact limit t k) {params : List Ty} {closure : Closure}
    (hclosure : HasType limit t (.function params ty) (.function closure))
    (hsimple : ∀ p ∈ params, p.Simple) {vs : List Value}
    (hvs : List.Forall₂ (HasType limit t) params vs) (f : String) :
    Ends Cut (HasType limit t ty) (callClosure (Prelude.host.evalWithin fuel) stack f closure vs) := by
  cases hclosure with
  | @function _ c _ _ hscope hchecked =>
    obtain ⟨result, heq, -⟩ := hchecked.function
    cases heq
    have htypes : List.Forall₂ (fun p v => v.simpleType? = some p.ty) closure.params vs := by
      have hboth := (List.forall₂_and_left _ vs).mpr ⟨hsimple, hvs⟩
      exact (List.forall₂_map_left_iff.mp hboth).imp fun p v h => h.2.simpleType? h.1
    refine Ends.callClosure_of_types htypes (fun _ => .recursionLimit _ _) fun inner es _ hes => ?_
    exact body h hscope hchecked (hes.imp fun p e he => .literal he hchecked.limit_ne_zero)

/-- A checked call gives a value of the result type of what it calls. -/
theorem call (ht : t.WellFormed) (hfree : t.ComparisonFree) (h : ∀ k ≤ fuel, Exact limit t k)
    (hs : Mirrors limit t s c) {f : String} {args : List Expr}
    (he : Checked limit c (.call f args) ty) :
    Ends Cut (HasType limit t ty) (Prelude.host.evalWithin (fuel + 1) stack s (.call f args)) := by
  obtain ⟨d, env, params, hf, hd, hargs⟩ := he.call
  obtain ⟨rfl, hfound⟩ := hs.resolve? hf
  obtain ⟨hget, hbinds⟩ := hfound.callee hd
  obtain ⟨hsimple, hargs⟩ := (List.forall₂_and_left params args).mp hargs
  have hcallee : Checked limit env d (.function params ty) := ⟨ht f d hget, hfree f d hget, hd⟩
  by_cases hlit : ∃ m ps b, d = .function m ps b
  · obtain ⟨m, ps, b, rfl⟩ := hlit
    obtain ⟨result, heq, -⟩ := hcallee.function
    cases heq
    have hargs := List.forall₂_map_left_iff.mp hargs
    rw [evalWithin_call_literal fuel stack args hbinds.resolve?, if_pos hargs.length_eq]
    exact enter fun inner => body h hs hcallee hargs
  · rw [evalWithin_call_other fuel stack args hbinds.resolve? fun m ps b heq => hlit ⟨m, ps, b, heq⟩]
    have hvalue : Ends Cut (HasType limit t (.function params ty))
        (Eval.enter stack (.symbol f) fun stack => Prelude.host.evalWithin fuel stack s d) :=
      enter fun inner => h fuel (Nat.le_refl _) hs hcallee
    refine hvalue.bind fun v hv => ?_
    obtain ⟨closure, rfl⟩ := hv.exists_closure
    dsimp only
    rw [if_pos (hv.arity_eq.trans hargs.length_eq)]
    have hvalues : Ends Cut (List.Forall₂ (HasType limit t) params)
        (evalAll (Prelude.host.evalWithin fuel stack s) args) :=
      .evalAll (hargs.imp fun p a ha => h fuel (Nat.le_refl _) hs ha)
    exact hvalues.bind fun vs hvs => callClosure h hv hsimple hvs f

end Exact

/-- Evaluations of checked expressions give values of their types, whatever their fuel. -/
theorem exact_all {limit : Nat} {t : Table} (ht : t.WellFormed) (hfree : t.ComparisonFree)
    (fuel : Nat) : Exact limit t fuel := by
  induction fuel using Nat.strongRecOn with
  | ind fuel ih =>
    intro stack s c e ty hs he
    cases fuel with
    | zero => exact .exhausted
    | succ fuel =>
      have hk : ∀ k ≤ fuel, Exact limit t k := fun k hk => ih k (by omega)
      have hfuel := hk fuel (Nat.le_refl _)
      obtain ⟨room, rfl⟩ := Nat.exists_eq_succ_of_ne_zero he.limit_ne_zero
      cases he.wellFormed with
      | number x => cases he.check; exact .number x
      | boolean b => cases he.check; exact .boolean b
      | symbol n =>
        obtain ⟨d, env, hn, hd⟩ := he.symbol
        obtain ⟨rfl, hfound⟩ := hs.resolve? hn
        rw [Host.evalWithin]
        cases hfound with
        | binding hget hbinds =>
          rw [hbinds.resolve?]
          exact Exact.enter fun inner => hfuel hs ⟨ht n d hget, hfree n d hget, hd⟩
        | parameter heq hp hbinds =>
          rw [hbinds.resolve?]
          subst heq
          cases hd
          exact Exact.enter fun inner => Exact.parameter hp
        | argument heq hp hbinds _ hmirrors ha =>
          rw [hbinds.resolve?]
          subst heq
          cases hd
          exact Exact.enter fun inner => hfuel hmirrors ha
      | @binary l r op _ _ =>
        obtain ⟨hop, rfl, hl, hr⟩ := he.binary
        rw [Host.evalWithin]
        refine (hfuel hs hl).bind fun v hv => ?_
        refine (hfuel hs hr).bind fun w hw => ?_
        obtain ⟨x, rfl⟩ := hv.number_of
        obtain ⟨y, rfl⟩ := hw.number_of
        obtain ⟨z, hz⟩ := Operator.apply_of_arithmetic hop x y
        rw [hz]
        exact .number z
      | function m _ _ =>
        obtain ⟨result, rfl, -⟩ := he.function
        exact .function hs he
      | native m _ =>
        obtain ⟨result, rfl, -⟩ := he.function
        exact .function hs he
      | call f hargs => exact Exact.call ht hfree hk hs he

end Eval

theorem Table.ComparisonFree.insert {t : Table} (h : t.ComparisonFree) (name : String) {e : Expr}
    (he : e.ComparisonFree) : (t.insert name e).ComparisonFree :=
  forall_insert h he

/-- The built-in functions compare nothing. -/
theorem Prelude.comparisonFree_table : table.ComparisonFree := by
  refine forall_table (.number 0.0) fun b hb => ?_
  rcases List.mem_cons.mp hb with rfl | hb
  · exact .function 0 _ (.binary rfl (.symbol _) (.symbol _))
  · obtain ⟨_, _, rfl⟩ := List.mem_map.mp hb
    exact .function 0 _ (.native _)

namespace Session

/-- Without comparisons the types of checked expressions are exact: an evaluation stops at the limit,
or it gives a value whose own type is that of the expression. -/
theorem type_of_eval {t : Table} (ht : Reachable t) (htfree : t.ComparisonFree) {e : Expr}
    (he : e.Parsed) (hefree : e.ComparisonFree) {checking : Nat} {ty : Ty}
    (hcheck : Typing.check checking (.ofTable t) e = .ok ty) (limit : Nat) :
    (∃ v, Eval.eval limit (.ofTable t) e = .ok v ∧
        ∃ bound, ∀ limit' ≥ bound, v.type limit' = .ok ty) ∨
      ∃ err, Eval.eval limit (.ofTable t) e = .error (.error err) ∧
        ∃ n, err.cause = .recursionLimit n := by
  have htable := ht.wellFormed
  have hfuel : Eval.eval limit (.ofTable t) e ≠ .error .exhausted :=
    Eval.eval_ne_exhausted limit (Prelude.bounded _) htable.placed he.wellFormed.placed
  have hends : Eval.Ends Eval.Cut (Typing.HasType checking t ty) (Eval.eval limit (.ofTable t) e) :=
    Eval.exact_all htable htfree _ .root ⟨he.wellFormed, hefree, hcheck⟩
  generalize Eval.eval limit (.ofTable t) e = result at hfuel hends ⊢
  cases result with
  | ok v => exact .inl ⟨v, rfl, Typing.HasType.exists_type_eq htable hends⟩
  | error halt =>
    right
    cases hends with
    | exhausted => exact absurd rfl hfuel
    | recursionLimit n frames => exact ⟨_, rfl, n, rfl⟩

/-- A name is bound to a call that gives a closure, whose scope binds the argument of the call. -/
theorem type_of_eval_closure :
    let t := (["let add = (a: Number) -> (b: Number) -> a + b", "let more = add(#)"].foldl
      (execute 16) fresh).table
    (∃ v, Eval.eval 16 (.ofTable t) (.symbol "more") = .ok v ∧
        ∃ bound, ∀ limit' ≥ bound, v.type limit' = .ok (.function [.number] .number)) ∨
      ∃ err, Eval.eval 16 (.ofTable t) (.symbol "more") = .error (.error err) ∧
        ∃ n, err.cause = .recursionLimit n := by
  intro t
  let add := Expr.function 0 [⟨"a", .number⟩]
    (.function 0 [⟨"b", .number⟩] (.binary .add (.symbol "a") (.symbol "b")))
  let t₁ := Prelude.table.insert "add" add
  let t₂ := t₁.insert "more" (.call "add" [.symbol "#"])
  have h₁ : execute 16 fresh "let add = (a: Number) -> (b: Number) -> a + b" = ⟨t₁, 0⟩ :=
    execute_define (by cbv) rfl (by decide +kernel)
  have h₂ : execute 16 ⟨t₁, 0⟩ "let more = add(#)" = ⟨t₂, 0⟩ :=
    execute_define (by cbv) rfl (by decide +kernel)
  have heq : t = t₂ := by
    simp only [t, List.foldl_cons, List.foldl_nil, h₁, h₂]
  have ht : Reachable t := ⟨16, _, rfl⟩
  have htfree : t.ComparisonFree := by
    rw [heq]
    refine (Prelude.comparisonFree_table.insert _ ?_).insert _ (.call _ ?_)
    · exact .function _ _ (.function _ _ (.binary rfl (.symbol _) (.symbol _)))
    · exact fun a ha => List.mem_singleton.mp ha ▸ .symbol "#"
  have he : (Expr.symbol "more").Parsed := ⟨"more", .expression (.symbol "more"), by cbv, rfl⟩
  have hcheck : Typing.check 16 (.ofTable t) (.symbol "more") =
      .ok (.function [.number] .number) := by
    decide +kernel
  exact type_of_eval ht htfree he (.symbol "more") hcheck 16

end Session

end Reckoner
