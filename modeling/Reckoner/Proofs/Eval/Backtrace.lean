import Mathlib
import Reckoner.Proofs.Except
import Reckoner.Eval.Basic

/-! # Frames are only shown

The frames on the stack are shown in the backtrace of an error.  On two stacks with the same room and
the same limit, an evaluation gives the same value, or fails for the same cause.
-/
namespace Reckoner

/-- Why an evaluation stopped, whatever was on the stack. -/
def Halt.cause? : Halt → Option EvalError.Cause
  | .error err => some err.cause
  | .exhausted => none

/-- Stacks that differ in their frames only. -/
def CallStack.Level (stack stack' : CallStack) : Prop :=
  stack'.room = stack.room ∧ stack'.frames.length = stack.frames.length

theorem CallStack.Level.push? {stack stack' : CallStack} (h : stack.Level stack')
    (frame : StackFrame) :
    Option.Rel Level (stack.push? frame) (stack'.push? frame) := by
  obtain ⟨frames, room⟩ := stack
  obtain ⟨frames', room'⟩ := stack'
  obtain ⟨rfl, hlen⟩ := h
  cases room' with
  | zero => exact .none
  | succ room => exact .some ⟨rfl, by simpa using hlen⟩

namespace Eval

variable {α : Type} {stack stack' : CallStack}

/-- Outcomes that are the same but for the backtrace of an error. -/
def Matches (x y : Except Halt α) : Prop :=
  x.mapError Halt.cause? = y.mapError Halt.cause?

namespace Matches

variable {x y : Except Halt α}

theorem rfl : Matches x x :=
  Eq.refl _

theorem bind {β : Type} {f g : α → Except Halt β} (h : Matches x y)
    (hf : ∀ a, Matches (f a) (g a)) : Matches (x >>= f) (y >>= g) :=
  mapError_bind_congr h hf

theorem raise (stack stack' : CallStack) (cause : EvalError.Cause) :
    Matches (Eval.raise stack cause : Except Halt α) (Eval.raise stack' cause) :=
  Eq.refl _

theorem enter (h : stack.Level stack') (frame : StackFrame) {run run' : CallStack → Result}
    (hrun : ∀ inner inner', CallStack.Level inner inner' → Matches (run inner) (run' inner')) :
    Matches (Eval.enter stack frame run) (Eval.enter stack' frame run') := by
  have hlimit : stack'.limit = stack.limit := by
    rw [CallStack.limit, CallStack.limit, h.1, h.2]
  have hpush := h.push? frame
  simp only [Eval.enter]
  generalize stack.push? frame = inner, stack'.push? frame = inner' at hpush ⊢
  cases hpush with
  | none => rw [hlimit]; exact raise stack stack' _
  | some hinner => exact hrun _ _ hinner

theorem settle (stack stack' : CallStack) (outcome : Except EvalError.Cause Value) :
    Matches (Eval.settle stack outcome) (Eval.settle stack' outcome) := by
  cases outcome with
  | ok v => exact rfl
  | error cause => exact raise stack stack' cause

theorem evalAll {run run' : Expr → Result} (hrun : ∀ e, Matches (run e) (run' e))
    (es : List Expr) : Matches (Eval.evalAll run es) (Eval.evalAll run' es) := by
  induction es with
  | nil => exact rfl
  | cons e es ih => exact (hrun e).bind fun v => ih.bind fun vs => rfl

theorem readArguments {run run' : Scope → Expr → Result} (hrun : ∀ s e, Matches (run s e) (run' s e))
    (stack stack' : CallStack) (s : Scope) (names : List String) :
    Matches (Eval.readArguments run stack s names) (Eval.readArguments run' stack' s names) := by
  induction names with
  | nil => exact rfl
  | cons n names ih =>
    simp only [Eval.readArguments]
    split
    · exact raise stack stack' _
    · exact (hrun _ _).bind fun v => ih.bind fun vs => rfl

theorem literals (stack stack' : CallStack) (ps : List Parameter) (vs : List Value) :
    Matches (Eval.literals stack ps vs) (Eval.literals stack' ps vs) := by
  induction vs generalizing ps with
  | nil => cases ps <;> exact rfl
  | cons v vs ih =>
    cases ps with
    | nil => exact rfl
    | cons p ps =>
      simp only [Eval.literals]
      split
      · split
        · exact (ih ps).bind fun es => rfl
        · exact raise stack stack' _
      · exact raise stack stack' _

theorem callClosure (h : stack.Level stack') {run run' : CallStack → Scope → Expr → Result}
    (hrun : ∀ inner inner', CallStack.Level inner inner' → ∀ s e,
      Matches (run inner s e) (run' inner' s e)) (name : String) (c : Closure) (vs : List Value) :
    Matches (Eval.callClosure run stack name c vs) (Eval.callClosure run' stack' name c vs) := by
  simp only [Eval.callClosure]
  split
  · refine (literals stack stack' c.params vs).bind fun es => ?_
    exact enter h _ fun inner inner' hinner => hrun inner inner' hinner _ _
  · exact raise stack stack' _

end Matches

end Eval

end Reckoner
