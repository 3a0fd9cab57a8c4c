import Mathlib
import Reckoner.Proofs.Eval.Halting
import Reckoner.Proofs.Expr.Rewriting
import Reckoner.Proofs.Scope.Twins
import Reckoner.Proofs.Session.Binding
import Reckoner.Proofs.Typing.Soundness

/-! # Evaluations of rewritten expressions

In an expression without function literals a name stands in the scope of the session, wherever and
however often the arguments of calls are read.  There the name and what it is bound to have the same
value.  What could tell them apart is a call of a parameter, which takes its arguments as they are
written if the parameter is bound to a function literal, and takes their values if it is bound to a
name; a checked expression makes no such call.
-/
namespace Reckoner

namespace Typing

variable {c : Scope} {ty : Ty}

/-- Some check gives an expression a type. -/
def Accepts (c : Scope) (e : Expr) (ty : Ty) : Prop :=
  ∃ limit room, checkWithin limit (room + 1) c e = .ok ty

theorem accepts_of_check {limit room : Nat} {e : Expr}
    (h : checkWithin limit room c e = .ok ty) : Accepts c e ty := by
  cases room with
  | zero => cases h
  | succ room => exact ⟨limit, room, h⟩

namespace Accepts

theorem literal {e : Expr} (h : e.LiteralOf ty) : Accepts c e ty := by
  cases h <;> exact ⟨1, 0, rfl⟩

theorem symbol {n : String} (h : Accepts c (.symbol n) ty) :
    ∃ d env, c.resolve? n = some (d, env) ∧ Accepts env d ty := by
  obtain ⟨limit, room, h⟩ := h
  obtain ⟨d, env, hn, hd⟩ := checkWithin_symbol_eq_ok_iff.mp h
  exact ⟨d, env, hn, accepts_of_check hd⟩

theorem binary {op : Operator} {l r : Expr} (h : Accepts c (.binary op l r) ty) :
    (∃ left, Accepts c l left) ∧ ∃ right, Accepts c r right := by
  obtain ⟨limit, room, h⟩ := h
  obtain ⟨right, hl, hr, -⟩ := checkWithin_binary_eq_ok_iff.mp h
  exact ⟨⟨ty, accepts_of_check hl⟩, ⟨right, accepts_of_check hr⟩⟩

theorem function {m : Nat} {ps : List Parameter} {b : Expr}
    (h : Accepts c (.function m ps b) ty) :
    ∃ result, ty = .function (ps.map (·.ty)) result ∧ Accepts (c.declare ps) b result := by
  obtain ⟨limit, room, h⟩ := h
  obtain ⟨result, hb, hty⟩ := checkWithin_function_eq_ok_iff.mp h
  exact ⟨result, hty, accepts_of_check hb⟩

theorem call {f : String} {args : List Expr} (h : Accepts c (.call f args) ty) :
    ∃ d env params, c.resolve? f = some (d, env) ∧ Accepts env d (.function params ty) ∧
      List.Forall₂ (fun p a => Accepts c a p) params args := by
  obtain ⟨limit, room, h⟩ := h
  obtain ⟨d, env, params, hf, hd, hargs⟩ := checkWithin_call_eq_ok_iff.mp h
  exact ⟨d, env, params, hf, accepts_of_check hd, hargs.imp fun _ _ ha => accepts_of_check ha.2⟩

end Accepts

/-- A well-formed expression that a check accepts in the scope which the scope of an evaluation is a
model of. -/
def Typed (t : Table) (s : Scope) (e : Expr) : Prop :=
  e.WellFormed ∧ ∃ bound c ty, Models bound t s c ∧ Accepts c e ty

theorem Accepts.exists_bound {t : Table} (ht : t.WellFormed) {e : Expr} (hwf : e.WellFormed)
    (h : Accepts c e ty) (bound : Nat) :
    ∃ bound', ∀ s, Models bound t s c → Eval.Yields bound' ty s e := by
  obtain ⟨limit, room, h⟩ := h
  exact sound_all ht limit (room + 1) hwf h bound

/-- Accepted arguments make a model out of the scope of a call. -/
theorem Models.exists_activate {t : Table} (ht : t.WellFormed) {bound : Nat} {s : Scope}
    (h : Models bound t s c) {ps : List Parameter} (hps : ∀ p ∈ ps, p.ty.Simple) {args : List Expr}
    (hargs : List.Forall₂ (fun p a => a.WellFormed ∧ Accepts c a p.ty) ps args) :
    ∃ bound', Models bound' t (s.activate ps args) (c.declare ps) := by
  obtain ⟨bound', hbound'⟩ := exists_bound_of_forall₂ <| List.forall₂_map_left_iff.mpr <|
    hargs.imp fun p a ha => ha.2.exists_bound ht ha.1 bound
  have hyields := List.forall₂_map_left_iff.mp (hbound' s h)
  refine ⟨max bound bound', .activate (h.mono (Nat.le_max_left _ _)) hps ?_⟩
  exact hyields.imp fun _ _ ha => ha.mono (Nat.le_max_right _ _)

end Typing

namespace Eval

open Typing (Accepts Models Typed)
open Reckoner.Expr (Rewritten FunctionFree)

/-- Where a name may be replaced: in the scope of the session, outside function literals. -/
def Replaceable (t : Table) (s : Scope) (e : Expr) : Prop :=
  s = .ofTable t ∧ e.FunctionFree

/-- A checked expression, and the same one or one in which a name is replaced. -/
def Kin (t : Table) (x : String) (r : Expr) (s _s' : Scope) (e e' : Expr) : Prop :=
  Typed t s e ∧ Rewritten (Replaceable t s) x r e e'

/-- The scopes of the two evaluations: the table is the same, arguments may be rewritten. -/
def Beside (t : Table) (x : String) (r : Expr) : Scope → Scope → Prop :=
  Scope.Twins (fun u u' => u = t ∧ u' = t) (Kin t x r)

/-- What the two evaluations are at. -/
inductive Paired (t : Table) (x : String) (r : Expr) : Scope → Expr → Scope → Expr → Prop where
  | checked {s s' : Scope} {e e' : Expr} (hs : Beside t x r s s') (he : Kin t x r s s' e e') :
      Paired t x r s e s' e'
  | native {s s' : Scope} {code : NativeCode}
      (h : ∀ n ∈ code.params, ∃ a a' outer outer', s.resolve? n = some (a, outer) ∧
        s'.resolve? n = some (a', outer') ∧ Beside t x r outer outer' ∧
        Kin t x r outer outer' a a') :
      Paired t x r s (.native code) s' (.native code)

variable {t : Table} {x : String} {r : Expr} {s s' c : Scope} {bound : Nat}

theorem Replaceable.binary {op : Operator} {a b : Expr} (h : Replaceable t s (.binary op a b)) :
    Replaceable t s a ∧ Replaceable t s b := by
  obtain ⟨hs, hfree⟩ := h
  cases hfree with
  | binary _ ha hb => exact ⟨⟨hs, ha⟩, ⟨hs, hb⟩⟩

theorem Replaceable.call {f : String} {args : List Expr} (h : Replaceable t s (.call f args)) :
    ∀ a ∈ args, Replaceable t s a := by
  obtain ⟨hs, hfree⟩ := h
  cases hfree with
  | call _ hargs => exact fun a ha => ⟨hs, hargs a ha⟩

/-- Where a check finds a binding of the table, both evaluations find it; where it finds a parameter,
they find arguments that go together. -/
theorem Beside.lookup (hs : Beside t x r s s') (hmodels : Models bound t s c) {n : String}
    {d : Expr} {env : Scope} (hn : c.resolve? n = some (d, env)) :
    env = c ∧ ((t.get? n = some d ∧ s.resolve? n = some (d, s) ∧ s'.resolve? n = some (d, s')) ∨
      ∃ p a a' outer outer', d = .parameter p ∧ p.ty.Simple ∧ s.resolve? n = some (a, outer) ∧
        s'.resolve? n = some (a', outer') ∧ Beside t x r outer outer' ∧
        Kin t x r outer outer' a a') := by
  refine ⟨(hmodels.resolve? hn).1, ?_⟩
  obtain ⟨⟨d', owner⟩, howner, heq⟩ := Option.map_eq_some_iff.mp hn
  cases heq
  obtain ⟨-, hfound⟩ := hmodels.owner? howner
  rcases hs.owner? n with
    ⟨u, u', ⟨rfl, rfl⟩, hroot, hroot'⟩ | ⟨a, a', f, f', outer, outer', ha, ha', hf, hf', hout, hkin⟩
  · rcases hfound with ⟨hget, -⟩ | ⟨p, a, f, outer, -, -, hown, hf, -, -⟩
    · left
      rw [Scope.resolve?_of_root hroot, Scope.resolve?_of_root hroot', hget]
      exact ⟨rfl, rfl, rfl⟩
    · -- The frame that holds the argument is an activation, and the root is none.
      rw [hown] at hroot
      obtain ⟨_, -, heq⟩ := Option.map_eq_some_iff.mp hroot.symm
      cases heq
      cases hf
  · rcases hfound with ⟨-, hown⟩ | ⟨p, _, _, _, rfl, hp, -, -, -, -⟩
    · rw [hown] at ha
      cases ha
      cases hf
    · right
      obtain ⟨hne, hne'⟩ := hout.ne_nil
      exact ⟨p, a, a', outer, outer', rfl, hp, Scope.resolve?_of_activation ha hf hne,
        Scope.resolve?_of_activation ha' hf' hne', hout, hkin⟩

theorem forall₂_kin (hmodels : Models bound t s c) {params : List Ty} {args args' : List Expr}
    (hargs : List.Forall₂ (fun p a => a.WellFormed ∧ Accepts c a p) params args)
    (hrewritten : List.Forall₂ (Rewritten (Replaceable t s) x r) args args') :
    List.Forall₂ (Kin t x r s s') args args' := by
  induction hargs generalizing args' with
  | nil => cases hrewritten; exact .nil
  | @cons p a params args ha _ ih =>
    cases hrewritten with
    | cons hr hrewritten => exact .cons ⟨⟨ha.1, bound, c, p, hmodels, ha.2⟩, hr⟩ (ih hrewritten)

/-- The body of a checked function, called with checked arguments. -/
theorem Paired.body (ht : t.WellFormed) (hs : Beside t x r s s') (hmodels : Models bound t s c)
    {m : Nat} {ps : List Parameter} {b : Expr} (hf : (Expr.function m ps b).WellFormed) {ty : Ty}
    (hb : Accepts (c.declare ps) b ty) {args args' : List Expr}
    (hargs : List.Forall₂ (fun p a => a.WellFormed ∧ Accepts c a p.ty) ps args)
    (hkin : List.Forall₂ (Kin t x r s s') args args') :
    Paired t x r (s.activate ps args) b (s'.activate ps args') b := by
  cases hf with
  | function _ hps hbody =>
    obtain ⟨bound', hbound'⟩ := hmodels.exists_activate ht hps hargs
    exact .checked (.activate ps hs hkin) ⟨⟨hbody, bound', _, ty, hbound', hb⟩, .refl _ x r b⟩
  | @native _ code _ hcode =>
    refine .native fun n hn => ?_
    -- Host code reads the parameters of its function, so it finds the arguments of the call.
    have hpair := Table.get?_ofList_zip hkin (ps.map (·.name)) n
    generalize hgiven : (Table.ofList ((ps.map (·.name)).zip args)).get? n = y at hpair
    generalize hgiven' : (Table.ofList ((ps.map (·.name)).zip args')).get? n = y' at hpair
    cases hpair with
    | none => exact absurd hgiven (hcode.get?_ne_none hargs.length_eq hn)
    | @some a a' ha =>
      obtain ⟨hne, hne'⟩ := hs.ne_nil
      exact ⟨a, a', s, s', Scope.resolve?_of_activation (Scope.owner?_cons_of_some hgiven) rfl hne,
        Scope.resolve?_of_activation (Scope.owner?_cons_of_some hgiven') rfl hne', hs, ha⟩

/-- A closure of a checked function goes beside itself. -/
theorem Paired.closures (ht : t.WellFormed) (hs : Beside t x r s s') (hmodels : Models bound t s c)
    {m : Nat} {ps : List Parameter} {b : Expr} (hf : (Expr.function m ps b).WellFormed) {ty : Ty}
    (hchecked : Accepts c (.function m ps b) ty) :
    Simulation.Closures (Paired t x r) ⟨m, ps, b, s⟩ ⟨m, ps, b, s'⟩ := by
  obtain ⟨result, -, hb⟩ := hchecked.function
  refine ⟨rfl, fun es hes => ?_⟩
  have hargs : List.Forall₂ (fun p a => a.WellFormed ∧ Accepts c a p.ty) ps es :=
    hes.imp fun _ _ he => ⟨he.wellFormed, .literal he⟩
  refine .body ht hs hmodels hf hb hargs ?_
  exact forall₂_kin hmodels (List.forall₂_map_left_iff.mpr hargs)
    (List.forall₂_same.mpr fun e _ => .refl _ x r e)

theorem Paired.step_symbol (ht : t.WellFormed) (hx : t.get? x = some r) (hs : Beside t x r s s')
    (hmodels : Models bound t s c) {n : String} {ty : Ty} (hchecked : Accepts c (.symbol n) ty)
    {e' : Expr} (he : Rewritten (Replaceable t s) x r (.symbol n) e') :
    Step Prelude.host (fun _ => True) (Paired t x r) (Simulation.Closures (Paired t x r)) s s'
      (.symbol n) e' := by
  obtain ⟨d, env, hn, hd⟩ := hchecked.symbol
  obtain ⟨rfl, hfound⟩ := hs.lookup hmodels hn
  rcases he.symbol with rfl | ⟨⟨rfl, -⟩, rfl, rfl⟩
  · apply Step.symbol
    rcases hfound with ⟨hget, hres, hres'⟩ | ⟨p, a, a', outer, outer', -, -, hres, hres', hout, hkin⟩
    · rw [hres, hres']
      exact .found (.checked hs ⟨⟨ht n d hget, bound, env, ty, hmodels, hd⟩, .refl _ x r d⟩)
    · rw [hres, hres']
      exact .found (.checked hout hkin)
  · have hres : (Scope.ofTable t).resolve? n = some (e', .ofTable t) := by
      rw [Scope.resolve?_of_root (Scope.owner?_ofTable t n), hx, Option.map_some]
    have htyped : Typed t (.ofTable t) e' := by
      rcases hfound with ⟨hget, -, -⟩ | ⟨p, a, a', outer, outer', -, -, hres', -, -, hkin⟩
      · rw [hx] at hget
        cases hget
        exact ⟨ht n e' hx, bound, env, ty, hmodels, hd⟩
      · rw [hres] at hres'
        cases hres'
        exact hkin.1
    exact .expand (fun _ => trivial) hres (.checked hs ⟨htyped, .refl _ n e' e'⟩)

theorem Paired.step_call (ht : t.WellFormed) (hs : Beside t x r s s') (hmodels : Models bound t s c)
    {f : String} {args : List Expr} {ty : Ty} (hwf : ∀ a ∈ args, a.WellFormed)
    (hchecked : Accepts c (.call f args) ty) {e' : Expr}
    (he : Rewritten (Replaceable t s) x r (.call f args) e') :
    Step Prelude.host (fun _ => True) (Paired t x r) (Simulation.Closures (Paired t x r)) s s'
      (.call f args) e' := by
  obtain ⟨args', rfl, hrewritten⟩ := he.call Replaceable.call
  obtain ⟨d, env, params, hf, hd, hparams⟩ := hchecked.call
  have hargs : List.Forall₂ (fun p a => a.WellFormed ∧ Accepts c a p) params args :=
    Typing.forall₂_imp_of_mem hwf hparams fun _ _ ha hp => ⟨ha, hp⟩
  have hkin : List.Forall₂ (Kin t x r s s') args args' := forall₂_kin hmodels hargs hrewritten
  obtain ⟨rfl, ⟨hget, hres, hres'⟩ | ⟨p, _, _, _, _, rfl, hp, -, -, -, -⟩⟩ := hs.lookup hmodels hf
  · by_cases hlit : ∃ m ps b, d = .function m ps b
    · obtain ⟨m, ps, b, rfl⟩ := hlit
      obtain ⟨result, heq, hb⟩ := hd.function
      cases heq
      refine .callLiteral hres hres' hkin.length_eq fun _ => ?_
      exact .body ht hs hmodels (ht f _ hget) hb (List.forall₂_map_left_iff.mp hargs) hkin
    · have hd' : ∀ m ps b, d ≠ .function m ps b := fun m ps b h => hlit ⟨m, ps, b, h⟩
      have hcallee : Paired t x r s d s' d :=
        .checked hs ⟨⟨ht f d hget, bound, env, _, hmodels, hd⟩, .refl _ x r d⟩
      exact .callOther hres hres' hd' hd' hcallee (hkin.imp fun _ _ ha => .checked hs ha)
  · obtain ⟨limit, room, hd⟩ := hd
    exact absurd hd (Typing.checkWithin_parameter_ne_function hp)

/-- The two evaluations stay side by side. -/
theorem simulation_paired (ht : t.WellFormed) (hx : t.get? x = some r) :
    Simulation Prelude.host (fun _ => True) (Paired t x r) (Simulation.Closures (Paired t x r)) := by
  refine .of_step trivial fun {s s' e e'} h => ?_
  cases h with
  | native h =>
    refine .native fun n hn => ?_
    obtain ⟨a, a', outer, outer', hres, hres', hout, hkin⟩ := h n hn
    rw [hres, hres']
    exact .found (.checked hout hkin)
  | checked hs he =>
    obtain ⟨⟨hwf, bound, c, ty, hmodels, hchecked⟩, he⟩ := he
    cases hwf with
    | number y => rcases he with rfl | ⟨-, rfl⟩ <;> exact .number y
    | boolean b => rcases he with rfl | ⟨-, rfl⟩ <;> exact .boolean b
    | symbol n => exact Paired.step_symbol ht hx hs hmodels hchecked he
    | @binary l r' op hl hr =>
      obtain ⟨⟨left, hleft⟩, ⟨right, hright⟩⟩ := hchecked.binary
      obtain ⟨l', r'', rfl, hl', hr'⟩ := he.binary Replaceable.binary
      exact .binary op (.checked hs ⟨⟨hl, bound, c, left, hmodels, hleft⟩, hl'⟩)
        (.checked hs ⟨⟨hr, bound, c, right, hmodels, hright⟩, hr'⟩)
    | function m hps hb =>
      rcases he with rfl | ⟨⟨-, hfree⟩, -⟩
      · exact .function (Paired.closures ht hs hmodels (.function m hps hb) hchecked)
      · cases hfree
    | native m hcode =>
      rcases he with rfl | ⟨⟨-, hfree⟩, -⟩
      · exact .function (Paired.closures ht hs hmodels (.native m hcode) hchecked)
      · cases hfree
    | call f hargs => exact Paired.step_call ht hs hmodels hargs hchecked he

end Eval

namespace Session

/-- Replacing a name by what it is bound to keeps the value of a checked expression without function
literals, with the same limit. -/
theorem eval_substitute {t : Table} (ht : Reachable t) {x : String} {r : Expr}
    (hx : t.get? x = some r) {e : Expr} (he : e.Parsed) (hfree : e.FunctionFree) {checking : Nat}
    {ty : Ty} (hcheck : Typing.check checking (.ofTable t) e = .ok ty) {limit : Nat} {v : Value}
    (hv : (∃ y, v = .number y) ∨ ∃ b, v = .boolean b)
    (heval : Eval.eval limit (.ofTable t) e = .ok v) :
    Eval.eval limit (.ofTable t) (Expr.substitute x r e) = .ok v := by
  have htable := ht.wellFormed
  have hsub : (Expr.substitute x r e).WellFormed := (htable x r hx).substitute he.wellFormed
  have htyped : Typing.Typed t (.ofTable t) e :=
    ⟨he.wellFormed, 0, _, ty, .root, Typing.accepts_of_check hcheck⟩
  have hpaired : Eval.Paired t x r (.ofTable t) e (.ofTable t) (Expr.substitute x r e) :=
    .checked (.root ⟨rfl, rfl⟩) ⟨htyped, .inr ⟨⟨rfl, hfree⟩, rfl⟩⟩
  have hfollows : Follows (fun _ => True) _ (Eval.eval limit (.ofTable t) e) _ :=
    (Eval.simulation_paired htable hx).along (Prelude.respects _) (Nat.le_refl _)
      (.refl _ (.ofLimit limit)) hpaired
  rw [heval] at hfollows
  obtain ⟨w, hw, halike⟩ := hfollows
  rw [halike.eq_of_simple hv] at hw
  exact Eval.eval_eq_ok_of_evalWithin Prelude.bounded htable.placed hsub.placed hw

/-- The argument is read where a parameter has the name that its replacement consists of. -/
theorem eval_substitute_argument :
    let t := (["let y = true", "let x = y", "let same = (y: Boolean) -> y == x"].foldl
      (execute 16) fresh).table
    Eval.eval 16 (.ofTable t) (.call "same" [.symbol "x"]) = .ok (.boolean true) ∧
      Eval.eval 16 (.ofTable t) (Expr.substitute "x" (.symbol "y") (.call "same" [.symbol "x"])) =
        .ok (.boolean true) := by
  intro t
  let t₁ := Prelude.table.insert "y" (.boolean true)
  let t₂ := t₁.insert "x" (.symbol "y")
  let t₃ := t₂.insert "same"
    (.function 0 [⟨"y", .boolean⟩] (.binary .equal (.symbol "y") (.symbol "x")))
  have h₁ : execute 16 fresh "let y = true" = ⟨t₁, 0⟩ :=
    execute_define (by cbv) rfl (by decide +kernel)
  have h₂ : execute 16 ⟨t₁, 0⟩ "let x = y" = ⟨t₂, 0⟩ :=
    execute_define (by cbv) rfl (by decide +kernel)
  have h₃ : execute 16 ⟨t₂, 0⟩ "let same = (y: Boolean) -> y == x" = ⟨t₃, 0⟩ :=
    execute_define (by cbv) rfl (by decide +kernel)
  have ht : t = t₃ := by
    simp only [t, List.foldl_cons, List.foldl_nil, h₁, h₂, h₃]
  have hreachable : Reachable t := ⟨16, _, rfl⟩
  have he : (Expr.call "same" [.symbol "x"]).Parsed :=
    ⟨"same(x)", .expression (.call "same" [.symbol "x"]), by cbv, rfl⟩
  have hfree : (Expr.call "same" [.symbol "x"]).FunctionFree :=
    .call _ (by simpa using .symbol "x")
  have hcheck : Typing.check 16 (.ofTable t₃) (.call "same" [.symbol "x"]) = .ok .boolean := by
    decide +kernel
  have heval : Eval.eval 16 (.ofTable t₃) (.call "same" [.symbol "x"]) = .ok (.boolean true) := rfl
  rw [ht] at hreachable ⊢
  exact ⟨heval, eval_substitute hreachable rfl he hfree hcheck (.inr ⟨true, rfl⟩) heval⟩

end Session

end Reckoner
