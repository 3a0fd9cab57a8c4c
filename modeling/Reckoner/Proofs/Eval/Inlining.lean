import Mathlib
import Reckoner.Proofs.Eval.ByName
import Reckoner.Proofs.Expr.Inlining

/-! # A call means its inlined body

A call binds parameters to arguments as they are written, and an argument is always read where the call
stands.  So where names are found in the activation of a call or in the root table only, a call comes to
what the body of the function comes to with the arguments in the place of the parameters.

The two evaluations go side by side, and the inlined one has fewer names to look up: what is below a
parameter in the one is in place of it in the other.  So it needs less fuel and less room, and shows
other frames when it fails.
-/
namespace Reckoner

open Reckoner.Expr (arguments assign)

namespace Eval

/-- The second computation gives something that goes with what the first gives, or fails for the same
cause, unless the first is cut short. -/
def Tallies {α β : Type} (R : α → β → Prop) (x : Except Halt α) (y : Except Halt β) : Prop :=
  Follows (fun cause => ∃ halt : Halt, halt.CutShort ∧ halt.cause? = cause) R
    (x.mapError Halt.cause?) (y.mapError Halt.cause?)

theorem mapError_bind {α β : Type} (x : Except Halt α) (f : α → Except Halt β) :
    (x >>= f).mapError Halt.cause? =
      x.mapError Halt.cause? >>= fun a => (f a).mapError Halt.cause? := by
  cases x <;> rfl

namespace Tallies

variable {α β γ δ : Type} {R : α → β → Prop} {stack stack' : CallStack}
  {K : Closure → Closure → Prop}

theorem ok {a : α} {b : β} (h : R a b) : Tallies R (.ok a) (.ok b) :=
  Follows.ok h

theorem of_short {x : Except Halt α} (h : Short x) (y : Except Halt β) : Tallies R x y := by
  obtain ⟨halt, hshort, rfl⟩ := h
  exact .of_excused ⟨halt, hshort, rfl⟩ _

theorem raise (stack stack' : CallStack) (cause : EvalError.Cause) :
    Tallies R (Eval.raise stack cause) (Eval.raise stack' cause) :=
  Follows.error _

theorem bind {Q : γ → δ → Prop} {x : Except Halt α} {y : Except Halt β} {f : α → Except Halt γ}
    {g : β → Except Halt δ} (h : Tallies R x y) (hf : ∀ a b, R a b → Tallies Q (f a) (g b)) :
    Tallies Q (x >>= f) (y >>= g) := by
  rw [Tallies, mapError_bind, mapError_bind]
  exact Follows.bind h hf

/-- A frame more on the first stack alone. -/
theorem enter_left {Q : Value → β → Prop} (hroom : stack.room ≤ stack'.room) (frame : StackFrame)
    {run : CallStack → Result} {y : Except Halt β}
    (hrun : ∀ inner, inner.room ≤ stack'.room → Tallies Q (run inner) y) :
    Tallies Q (Eval.enter stack frame run) y := by
  rcases short_enter frame stack.frames stack.room run with hshort | ⟨less, hless, heq⟩
  · exact .of_short hshort y
  · rw [heq]
    exact hrun _ (by dsimp only; omega)

/-- A frame more on both stacks. -/
theorem enter {Q : Value → Value → Prop} (hroom : stack.room ≤ stack'.room) (frame : StackFrame)
    {run run' : CallStack → Result}
    (hrun : ∀ inner inner', inner.room ≤ inner'.room → Tallies Q (run inner) (run' inner')) :
    Tallies Q (Eval.enter stack frame run) (Eval.enter stack' frame run') := by
  obtain ⟨frames', room'⟩ := stack'
  rcases short_enter frame stack.frames stack.room run with hshort | ⟨less, hless, heq⟩
  · exact .of_short hshort _
  · cases room' with
    | zero => simp [← hless] at hroom
    | succ less' =>
      rw [heq]
      exact hrun _ _ (by dsimp only at hroom ⊢; omega)

theorem settle {Q : Value → Value → Prop} {x y : Except EvalError.Cause Value}
    (hxy : Follows (fun _ => False) Q x y) :
    Tallies Q (Eval.settle stack x) (Eval.settle stack' y) := by
  cases x with
  | ok v =>
    obtain ⟨w, rfl, hvw⟩ := hxy
    exact ok hvw
  | error cause =>
    obtain rfl := hxy.resolve_left id
    exact raise stack stack' cause

theorem readArguments {Q : Scope → Expr → Scope → Expr → Prop} {P : Value → Value → Prop}
    {s s' : Scope} {run run' : Scope → Expr → Result}
    (hrun : ∀ env e env' e', Q env e env' e' → Tallies P (run env e) (run' env' e'))
    {names : List String}
    (hnames : ∀ n ∈ names, Scope.Finds (fun _ => False) Q (s.resolve? n) (s'.resolve? n)) :
    Tallies (List.Forall₂ P) (Eval.readArguments run stack s names)
      (Eval.readArguments run' stack' s' names) := by
  induction names with
  | nil => exact ok .nil
  | cons n names ih =>
    simp only [Eval.readArguments]
    have hn := hnames n List.mem_cons_self
    generalize s.resolve? n = x, s'.resolve? n = y at hn ⊢
    cases hn with
    | found hfound =>
      refine (hrun _ _ _ _ hfound).bind fun v v' hv => ?_
      refine (ih fun m hm => hnames m (List.mem_cons_of_mem _ hm)).bind fun vs vs' hvs => ?_
      exact ok (.cons hv hvs)
    | lost => exact raise stack stack' _
    | excused hall => exact (hall ⟨.unboundArgument n, []⟩).elim

/-- Values that tally are the same numbers and booleans. -/
theorem agree {x y : Result} (h : Tallies (Value.Alike K) x y) (hx : x ≠ .error .exhausted) :
    Apart x ∨ Agree x y := by
  cases x with
  | ok v =>
    obtain ⟨w, hw, hv⟩ := h
    rw [mapError_eq_ok_iff.mp hw]
    cases hv with
    | number x => exact .inr (.number x)
    | boolean b => exact .inr (.boolean b)
    | function _ => exact .inl (.function _)
  | error halt =>
    cases halt with
    | exhausted => exact absurd rfl hx
    | error err =>
      obtain ⟨cause, frames⟩ := err
      rcases h with ⟨halt', hshort, hcause⟩ | hsame
      · cases hshort with
        | exhausted => cases hcause
        | recursionLimit limit frames' =>
          cases hcause
          exact .inl (.recursionLimit limit frames)
      · cases y with
        | ok w => cases hsame
        | error halt' =>
          cases halt' with
          | exhausted => cases hsame
          | error err' =>
            obtain ⟨cause', frames'⟩ := err'
            cases hsame
            exact .inr (.error cause frames frames')

end Tallies

section Places

variable (t : Table)

/-- Expressions that stand at the root: those without function literals, and function literals. -/
def AtRoot (e : Expr) : Prop :=
  e.FunctionFree ∨ ∃ m ps b, e = .function m ps b

/-- An expression of some form whose callees are all function literals of the table, or unbound. -/
def Admitted (form : Expr → Prop) (e : Expr) : Prop :=
  form e ∧ ∀ c ∈ e.callees, t.Callee c

/-- Parameters of a function literal of the table, and as many arguments of some form. -/
structure Applied (form : Expr → Prop) (ps : List Parameter) (args : List Expr) : Prop where
  literal : ∃ f m b, t.get? f = some (.function m ps b)
  length_eq : ps.length = args.length
  admitted : ∀ a ∈ args, Admitted t form a

/-- The scope of an evaluation, and that of the same evaluation with one call inlined: the form of what
is evaluated there, and what is put in the place of its symbols. -/
inductive Inlining :
    (Expr → Prop) → (String → Option Expr) → Scope → Scope → Prop where
  /-- Both at the root, where nothing is replaced. -/
  | root : Inlining AtRoot (fun _ => none) (.ofTable t) (.ofTable t)
  /-- In the activation of the call, where the other evaluation is still at the root. -/
  | body {ps : List Parameter} {args : List Expr} (h : Applied t AtRoot ps args) :
      Inlining (Expr.Over (fun code => code.params = []) ps) (arguments ps args)
        ((Scope.ofTable t).activate ps args) (.ofTable t)
  /-- In the activations of a further call. -/
  | call {form : Expr → Prop} {σ : String → Option Expr} {s s' : Scope} {ps : List Parameter}
      {args : List Expr} (h : Inlining form σ s s') (hargs : Applied t form ps args) :
      Inlining (Expr.Over (NativeCode.ReadsOnly ps) ps) (fun _ => none) (s.activate ps args)
        (s'.activate ps (args.map (assign σ)))

/-- An expression in its scope, and what is evaluated for it where a call is inlined. -/
def Inlined (s : Scope) (e : Expr) (s' : Scope) (e' : Expr) : Prop :=
  ∃ form σ, Inlining t form σ s s' ∧ Admitted t form e ∧ e' = assign σ e

end Places

variable {host : Host} {t : Table} {form : Expr → Prop} {σ : String → Option Expr} {s s' : Scope}

theorem Inlining.ne_nil (h : Inlining t form σ s s') : s ≠ [] ∧ s' ≠ [] := by
  cases h <;> exact ⟨List.cons_ne_nil _ _, List.cons_ne_nil _ _⟩

theorem AtRoot.functionFree {e : Expr} (h : AtRoot e) (he : ∀ m ps b, e ≠ .function m ps b) :
    e.FunctionFree := by
  rcases h with h | ⟨m, ps, b, rfl⟩
  · exact h
  · exact absurd rfl (he m ps b)

/-- The operands are of the same form. -/
theorem Inlining.operands (h : Inlining t form σ s s') {op : Operator} {l r : Expr}
    (he : form (.binary op l r)) : form l ∧ form r := by
  cases h with
  | root =>
    cases AtRoot.functionFree he (by simp) with
    | binary _ hl hr => exact ⟨.inl hl, .inl hr⟩
  | body _ => cases he with | binary _ hl hr => exact ⟨hl, hr⟩
  | call _ _ => cases he with | binary _ hl hr => exact ⟨hl, hr⟩

/-- The arguments are of the same form. -/
theorem Inlining.args (h : Inlining t form σ s s') {f : String} {args : List Expr}
    (he : form (.call f args)) : ∀ a ∈ args, form a := by
  cases h with
  | root =>
    cases AtRoot.functionFree he (by simp) with
    | call _ hargs => exact fun a ha => .inl (hargs a ha)
  | body _ => cases he with | call _ hargs => exact hargs
  | call _ _ => cases he with | call _ hargs => exact hargs

/-- A function literal stands only where the two evaluations are the same. -/
theorem Inlining.function (h : Inlining t form σ s s') {m : Nat} {ps : List Parameter} {b : Expr}
    (he : form (.function m ps b)) :
    s' = s ∧ assign σ (.function m ps b) = .function m ps b := by
  cases h with
  | root => exact ⟨rfl, Expr.assign_none _⟩
  | body _ => cases he
  | call _ _ => cases he

/-- What host code reads could stand there as a symbol, and is not replaced. -/
theorem Inlining.native (h : Inlining t form σ s s') {code : NativeCode} (he : form (.native code)) :
    ∀ n ∈ code.params, form (.symbol n) ∧ σ n = none := by
  intro n hn
  cases h with
  | root => exact ⟨.inl (.symbol n), rfl⟩
  | body _ =>
    cases he with
    | native hcode => simp [hcode] at hn
  | call _ _ =>
    cases he with
    | native hcode => exact ⟨.symbol (hcode n hn), rfl⟩

/-- What a function does not declare is looked up outside its activation. -/
theorem owner?_activate {ps : List Parameter} {n : String} (h : Expr.declares ps n = false)
    (s : Scope) (args : List Expr) : (s.activate ps args).owner? n = s.owner? n :=
  Scope.owner?_cons_of_none (f := ⟨.activation, _, none⟩) (Expr.arguments_eq_none h args)

/-- A callee is looked up in the root table. -/
theorem Inlining.owner?_callee (h : Inlining t form σ s s') {c : String} (hc : t.Callee c) :
    s.owner? c = (t.get? c).map (·, .ofTable t) ∧ s'.owner? c = (t.get? c).map (·, .ofTable t) := by
  induction h with
  | root => exact ⟨Scope.owner?_ofTable t c, Scope.owner?_ofTable t c⟩
  | body happlied =>
    obtain ⟨f, m, b, hf⟩ := happlied.literal
    rw [owner?_activate (hc.undeclared f m _ b hf)]
    exact ⟨Scope.owner?_ofTable t c, Scope.owner?_ofTable t c⟩
  | call _ happlied ih =>
    obtain ⟨f, m, b, hf⟩ := happlied.literal
    have hdeclared := hc.undeclared f m _ b hf
    rw [owner?_activate hdeclared, owner?_activate hdeclared]
    exact ih

/-- A parameter is read outside the activation that binds it. -/
theorem resolve?_parameter (hs : s ≠ []) {ps : List Parameter} {args : List Expr} {n : String}
    {a : Expr} (ha : arguments ps args n = some a) : (s.activate ps args).resolve? n = some (a, s) :=
  Scope.resolve?_of_activation (Scope.owner?_cons_of_some ha) rfl hs

section Inlinable

variable {args : List Expr} (ht : t.Inlinable NativeCode.ReadsOnly args)
include ht

theorem admitted_of_get? {n : String} {e : Expr} (h : t.get? n = some e) : Admitted t AtRoot e := by
  refine ⟨?_, fun c hc => ht.callees c (.inl ⟨n, e, h, hc⟩)⟩
  exact (ht.bindings n e h).imp_right fun ⟨m, ps, b, heq, _⟩ => ⟨m, ps, b, heq⟩

/-- A symbol finds beside each other what goes beside each other, or it finds what is in its place. -/
theorem Inlining.resolve?_symbol (h : Inlining t form σ s s') {n : String} (hn : form (.symbol n)) :
    (σ n = none ∧ Scope.Finds (fun _ => False) (Inlined t) (s.resolve? n) (s'.resolve? n)) ∨
      ∃ d d' env, σ n = some d' ∧ s.resolve? n = some (d, env) ∧ Inlined t env d s' d' := by
  cases h with
  | root =>
    refine .inl ⟨rfl, ?_⟩
    rw [Scope.resolve?_of_root (Scope.owner?_ofTable t n)]
    cases hget : t.get? n with
    | none => exact .lost
    | some d =>
      exact .found ⟨AtRoot, _, .root, admitted_of_get? ht hget, (Expr.assign_none d).symm⟩
  | body happlied =>
    cases hn with
    | symbol hdeclared =>
      obtain ⟨a, hmem, ha⟩ := Expr.exists_arguments happlied.length_eq hdeclared
      refine .inr ⟨a, a, .ofTable t, ha, resolve?_parameter (List.cons_ne_nil _ _) ha, ?_⟩
      exact ⟨AtRoot, _, .root, happlied.admitted a hmem, (Expr.assign_none a).symm⟩
  | @call form τ s s' ps es h happlied =>
    cases hn with
    | symbol hdeclared =>
      obtain ⟨a, hmem, ha⟩ := Expr.exists_arguments happlied.length_eq hdeclared
      have ha' : arguments ps (es.map (assign τ)) n = some (assign τ a) := by
        rw [Expr.arguments_map, ha, Option.map_some]
      refine .inl ⟨rfl, ?_⟩
      rw [resolve?_parameter h.ne_nil.1 ha, resolve?_parameter h.ne_nil.2 ha']
      exact .found ⟨form, τ, h, happlied.admitted a hmem, rfl⟩

/-- Of a call of a function literal, each evaluation opens its own activation. -/
theorem Inlining.call_literal (h : Inlining t form σ s s') {f : String} {m : Nat}
    {ps : List Parameter} {b : Expr} {es : List Expr} (hf : t.get? f = some (.function m ps b))
    (hes : ∀ a ∈ es, Admitted t form a) (hlen : ps.length = es.length) :
    Inlined t (s.activate ps es) b (s'.activate ps (es.map (assign σ))) b := by
  refine ⟨_, _, .call h ⟨⟨f, m, b, hf⟩, hlen, hes⟩, ⟨ht.over hf, fun c hc => ?_⟩,
    (Expr.assign_none b).symm⟩
  exact ht.callees c (.inl ⟨f, _, hf, hc⟩)

/-- An evaluation and the one with a call inlined go side by side. -/
theorem tallies_of_inlined {fuel fuel' : Nat} (hle : fuel ≤ fuel') {stack stack' : CallStack}
    (hroom : stack.room ≤ stack'.room) {e e' : Expr} (h : Inlined t s e s' e') :
    Tallies (Value.Alike Eq) (host.evalWithin fuel stack s e)
      (host.evalWithin fuel' stack' s' e') := by
  induction fuel generalizing fuel' stack stack' s s' e e' with
  | zero => exact .of_short .exhausted _
  | succ fuel ih =>
    obtain ⟨form, σ, hscopes, ⟨hform, hcallees⟩, rfl⟩ := h
    obtain ⟨fuel', rfl⟩ : ∃ k, fuel' = k + 1 := ⟨fuel' - 1, by omega⟩
    have hle' : fuel ≤ fuel' := Nat.le_of_succ_le_succ hle
    cases e with
    | number x => exact .ok (.number x)
    | boolean b => exact .ok (.boolean b)
    | function m ps b =>
      obtain ⟨rfl, heq⟩ := hscopes.function hform
      rw [heq]
      exact .ok (.function rfl)
    | parameter p =>
      rw [Expr.assign_parameter, Host.evalWithin, Host.evalWithin]
      cases hty : p.ty with
      | number => exact .ok (.number _)
      | boolean => exact .ok (.boolean _)
      | function params result => exact .raise stack stack' _
    | symbol n =>
      rcases hscopes.resolve?_symbol ht hform with ⟨hσ, hfinds⟩ | ⟨d, d', env, hσ, hn, hd⟩
      · rw [assign, hσ, Option.getD_none, Host.evalWithin, Host.evalWithin]
        generalize s.resolve? n = x, s'.resolve? n = y at hfinds ⊢
        cases hfinds with
        | found hfound => exact .enter hroom _ fun _ _ hinner => ih hle' hinner hfound
        | lost => exact .raise stack stack' _
        | excused hall => exact (hall ⟨.unknownSymbol n, []⟩).elim
      · -- What the parameter is bound to is in its place already: only the first goes on to it.
        rw [assign, hσ, Option.getD_some, Host.evalWithin, hn]
        exact .enter_left hroom _ fun _ hinner => ih (Nat.le_of_succ_le hle) hinner hd
    | binary op l r =>
      obtain ⟨hl, hr⟩ := hscopes.operands hform
      rw [assign, Host.evalWithin, Host.evalWithin]
      refine Tallies.bind (ih hle' hroom ⟨form, σ, hscopes, ⟨hl, ?_⟩, rfl⟩) fun v v' hv => ?_
      · exact fun c hc => hcallees c (List.mem_append_left _ hc)
      refine Tallies.bind (ih hle' hroom ⟨form, σ, hscopes, ⟨hr, ?_⟩, rfl⟩) fun w w' hw => ?_
      · exact fun c hc => hcallees c (List.mem_append_right _ hc)
      exact .settle (hv.follows_apply op hw)
    | native code =>
      rw [Expr.assign_native, Host.evalWithin, Host.evalWithin]
      refine Tallies.bind (.readArguments (fun _ _ _ _ hfound => ih hle' hroom hfound) ?_)
        fun vs vs' hvs => .settle ((host.respects_eq code.host vs vs' hvs).mapError _)
      intro n hn
      obtain ⟨hsymbol, hσ⟩ := hscopes.native hform n hn
      rcases hscopes.resolve?_symbol ht hsymbol with ⟨-, hfinds⟩ | ⟨_, _, _, hσ', _⟩
      · exact hfinds
      · cases hσ.symm.trans hσ'
    | call f es =>
      have hf : t.Callee f := hcallees f List.mem_cons_self
      have hes : ∀ a ∈ es, Admitted t form a := fun a ha =>
        ⟨hscopes.args hform a ha, fun c hc =>
          hcallees c (List.mem_cons_of_mem f (Expr.mem_calleesAll.mpr ⟨a, ha, hc⟩))⟩
      obtain ⟨howner, howner'⟩ := hscopes.owner?_callee hf
      have hresolve := Scope.resolve?_of_root howner
      have hresolve' := Scope.resolve?_of_root howner'
      rw [assign, Expr.assignAll_eq_map]
      rcases hf.bound with hnone | ⟨m, ps, b, hliteral⟩
      · rw [hnone, Option.map_none] at hresolve hresolve'
        rw [evalWithin_call_unbound fuel stack _ hresolve,
          evalWithin_call_unbound fuel' stack' _ hresolve']
        exact .raise stack stack' _
      · rw [hliteral, Option.map_some] at hresolve hresolve'
        rw [evalWithin_call_literal fuel stack _ hresolve,
          evalWithin_call_literal fuel' stack' _ hresolve', List.length_map]
        split
        · rename_i hlen
          exact .enter hroom _ fun _ _ hinner =>
            ih hle' hinner (hscopes.call_literal ht hliteral hes hlen)
        · exact .raise stack stack' _

variable {f : String} {m : Nat} {ps : List Parameter} {b : Expr}

/-- A call and the body with the arguments inlined agree, whatever fuel they get. -/
theorem agree_of_inlinable (hf : t.get? f = some (.function m ps b))
    (hb : b.Over (fun code => code.params = []) ps) (hlen : ps.length = args.length)
    {limit fuel fuel' : Nat} {x y : Result}
    (hx : host.evalWithin fuel (.ofLimit limit) (.ofTable t) (.call f args) = x)
    (hy : host.evalWithin fuel' (.ofLimit limit) (.ofTable t) (b.assign (arguments ps args)) = y)
    (hxe : x ≠ .error .exhausted) (hye : y ≠ .error .exhausted) : Apart x ∨ Agree x y := by
  refine Tallies.agree (K := Eq) ?_ hxe
  cases fuel with
  | zero => exact absurd hx.symm hxe
  | succ n =>
    have hfuel := evalWithin_eq_of_le (Nat.le_max_right n fuel') (hy.trans_ne hye)
    have hresolve : (Scope.ofTable t).resolve? f = some (.function m ps b, .ofTable t) := by
      rw [Scope.resolve?_of_root (Scope.owner?_ofTable t f), hf, Option.map_some]
    have hadmitted : ∀ a ∈ args, Admitted t AtRoot a := fun a ha =>
      ⟨.inl (ht.arguments a ha), fun c hc => ht.callees c (.inr ⟨a, ha, hc⟩)⟩
    have hcallees : ∀ c ∈ b.callees, t.Callee c := fun c hc =>
      ht.callees c (.inl ⟨f, _, hf, hc⟩)
    rw [← hx, ← hy, ← hfuel, evalWithin_call_literal n _ args hresolve, if_pos hlen]
    refine .enter_left (Nat.le_refl _) _ fun inner hinner => ?_
    exact tallies_of_inlined ht (Nat.le_max_left _ _) hinner
      ⟨_, _, .body ⟨⟨f, m, b, hf⟩, hlen, hadmitted⟩, ⟨hb, hcallees⟩, rfl⟩

end Inlinable

/-- A call means its inlined body.  Where host code in the body of a function literal reads parameters of
that literal only, and none in the body that is inlined, a call and the body with the arguments in the
place of the parameters come to the same number or boolean, or to errors for the same cause, unless the
call reaches the limit or gives a function. -/
theorem call_agree_body (host : Host) {t : Table} {args : List Expr} {f : String} {m : Nat}
    {ps : List Parameter} {b : Expr} (ht : t.Inlinable NativeCode.ReadsOnly args)
    (hf : t.get? f = some (.function m ps b)) (hnative : b.isNative = false)
    (hb : b.Over (fun code => code.params = []) ps) (hlen : ps.length = args.length)
    (limit : Nat) :
    (∀ fuel fuel' x y, host.evalWithin fuel (.ofLimit limit) (.ofTable t) (.call f args) = x →
      host.evalWithin fuel' (.ofLimit limit) (.ofTable t) (b.assign (arguments ps args)) = y →
        x ≠ .error .exhausted → y ≠ .error .exhausted → Apart x ∨ Agree x y) ∧
      (host.Bounded → (Scope.ofTable t).Placed → (∀ a ∈ args, a.Placed) →
        Apart (host.eval limit (.ofTable t) (.call f args)) ∨
          Agree (host.eval limit (.ofTable t) (.call f args))
            (host.eval limit (.ofTable t) (b.assign (arguments ps args)))) := by
  refine ⟨fun fuel fuel' x y => agree_of_inlinable ht hf hb hlen,
    fun hbounded hplaced hargs => ?_⟩
  have hbody : b.Placed := by
    cases hplaced _ List.mem_cons_self f _ hf with
    | function _ _ hb => exact hb
    | native _ _ code => cases hnative
  have hinlined : (b.assign (arguments ps args)).Placed := by
    refine hbody.assign (fun n a ha => hargs a ?_) hb.functionFree
    exact (List.of_mem_zip (Table.mem_of_get?_ofList ha)).2
  exact agree_of_inlinable ht hf hb hlen rfl rfl
    (eval_ne_exhausted limit (hbounded _) hplaced (.call f hargs))
    (eval_ne_exhausted limit (hbounded _) hplaced hinlined)

/-- The argument has the name of a parameter of both functions, and is read below both of them. -/
theorem call_agree_body_nested :
    let same := Expr.function 0 [⟨"y", .boolean⟩, ⟨"x", .boolean⟩]
      (.binary .equal (.symbol "x") (.symbol "y"))
    let b := Expr.call "same" [.binary .equal (.symbol "y") (.boolean false), .symbol "y"]
    let t := Table.ofList [("y", .boolean true), ("same", same),
      ("f", .function 1 [⟨"y", .boolean⟩] b)]
    let args := [Expr.binary .equal (.symbol "y") (.boolean false)]
    eval 16 (.ofTable t) (.call "f" args) = .ok (.boolean false) ∧
      Agree (eval 16 (.ofTable t) (.call "f" args))
        (eval 16 (.ofTable t) (b.assign (arguments [⟨"y", .boolean⟩] args))) := by
  intro same b t args
  have hcall : Prelude.host.eval 16 (.ofTable t) (.call "f" args) = .ok (.boolean false) := rfl
  have hb : ∀ hosts : NativeCode → Prop, b.Over hosts [⟨"y", .boolean⟩] := by
    intro hosts
    refine .call "same" fun a ha => ?_
    simp only [List.mem_cons, List.not_mem_nil, or_false] at ha
    rcases ha with rfl | rfl
    · exact .binary .equal (.symbol rfl) (.boolean false)
    · exact .symbol rfl
  have hbindings : ∀ n e, t.get? n = some e →
      e = .boolean true ∨ e = same ∨ e = .function 1 [⟨"y", .boolean⟩] b :=
    Table.forall_ofList (by simp)
  have hcallee : t.Callee "same" := by
    refine ⟨.inr ⟨_, _, _, rfl⟩, fun f m ps b' hf => ?_⟩
    rcases hbindings f _ hf with heq | heq | heq
    · cases heq
    · obtain ⟨-, rfl, -⟩ := Expr.function.inj heq
      rfl
    · obtain ⟨-, rfl, -⟩ := Expr.function.inj heq
      rfl
  have hfree : (Expr.binary .equal (.symbol "y") (.boolean false)).FunctionFree :=
    .binary .equal (.symbol "y") (.boolean false)
  have ht : t.Inlinable NativeCode.ReadsOnly args := by
    refine ⟨fun n e he => ?_, List.forall_mem_singleton.mpr hfree, ?_⟩
    · rcases hbindings n e he with rfl | rfl | rfl
      · exact .inl (.boolean true)
      · exact .inr ⟨_, _, _, rfl, .inr (.binary .equal (.symbol rfl) (.symbol rfl))⟩
      · exact .inr ⟨_, _, _, rfl, .inr (hb _)⟩
    · rintro c (⟨n, e, he, hc⟩ | ⟨a, ha, hc⟩)
      · rcases hbindings n e he with rfl | rfl | rfl
        · cases hc
        · cases hc
        · rw [show c = "same" by simpa [b, Expr.callees, Expr.calleesAll] using hc]
          exact hcallee
      · rw [List.mem_singleton.mp ha] at hc
        cases hc
  have hplaced : (Scope.ofTable t).Placed := by
    refine Scope.forall_ofTable fun n e he => ?_
    rcases hbindings n e he with rfl | rfl | rfl
    · exact .boolean true
    · exact .function 0 _ (.binary .equal (.symbol "x") (.symbol "y"))
    · refine .function 1 _ (.call "same" fun a ha => ?_)
      simp only [List.mem_cons, List.not_mem_nil, or_false] at ha
      rcases ha with rfl | rfl
      · exact .binary .equal (.symbol "y") (.boolean false)
      · exact .symbol "y"
  have hagree := (call_agree_body Prelude.host (f := "f") ht rfl rfl (hb _) rfl 16).2 Prelude.bounded
    hplaced (List.forall_mem_singleton.mpr (.binary .equal (.symbol "y") (.boolean false)))
  refine ⟨hcall, hagree.resolve_left fun h => ?_⟩
  rw [hcall] at h
  cases h

/-- Host code in the body of a function finds the argument of a call, but nothing once the argument is
inlined: the body has no symbol that stands for it. -/
theorem not_call_agree_body_of_host :
    let ps : List Parameter := [⟨"x", .number⟩]
    let b := Expr.binary .add (.native ⟨"sqrt", .number, ["x"], ⟨"sqrt"⟩⟩) (.number 0.0)
    let t := Table.ofList [("f", .function 0 ps b)]
    let args := [Expr.number 4.0]
    t.Inlinable (fun _ _ => True) args ∧ t.get? "f" = some (.function 0 ps b) ∧
      b.isNative = false ∧ ps.length = args.length ∧
      ¬(Apart (eval 512 (.ofTable t) (.call "f" args)) ∨
        Apart (eval 512 (.ofTable t) (b.assign (arguments ps args))) ∨
        Agree (eval 512 (.ofTable t) (.call "f" args))
          (eval 512 (.ofTable t) (b.assign (arguments ps args)))) := by
  intro ps b t args
  have hcall : ∃ x, eval 512 (.ofTable t) (.call "f" args) = .ok (.number x) := ⟨_, rfl⟩
  have hinlined : eval 512 (.ofTable t) (b.assign (arguments ps args)) =
      .error (.error ⟨.unboundArgument "x", []⟩) := rfl
  obtain ⟨x, hcall⟩ := hcall
  have hbindings : ∀ n e, t.get? n = some e → e = .function 0 ps b := Table.forall_ofList (by simp)
  have ht : t.Inlinable (fun _ _ => True) args := by
    refine ⟨fun n e he => ?_, List.forall_mem_singleton.mpr (.number _), ?_⟩
    · exact .inr ⟨0, ps, b, hbindings n e he, .inr (.binary .add (.native trivial) (.number _))⟩
    · rintro c (⟨n, e, he, hc⟩ | ⟨a, ha, hc⟩)
      · rw [hbindings n e he] at hc
        cases hc
      · rw [List.mem_singleton.mp ha] at hc
        cases hc
  refine ⟨ht, rfl, rfl, rfl, ?_⟩
  rw [hcall, hinlined]
  rintro (h | h | h) <;> cases h

end Eval

end Reckoner
