import Mathlib
import Reckoner.Proofs.Eval.Backtrace
import Reckoner.Proofs.Eval.Halting
import Reckoner.Proofs.Scope.Twins

/-! # Calls by name and by value

A call of a name that is bound to a function literal binds the parameters to the arguments as they are
written; a call of another name for the same function evaluates the arguments first and binds the
parameters to their values.  Where the arguments have values of the declared types, both calls come to
the same, unless one of them is cut short.  In the simulation that shows it, the one scope has an
argument where the other has the literal of its value, below any activations that the calls inside the
body open.  Closures that are made there capture the argument in the one and the literal in the other,
and host code that they are handed to must not look into what they have captured.
-/
namespace Reckoner

/-- The evaluation was cut short, by its fuel or by the limit of the stack. -/
inductive Halt.CutShort : Halt → Prop where
  | exhausted : CutShort .exhausted
  | recursionLimit (limit : Nat) (frames : Backtrace) :
      CutShort (.error ⟨.recursionLimit limit, frames⟩)

/-- Scopes with the same activations over the activations of two calls in `s`, one with `args` and the
other with `lits`, or scopes that are the same. -/
inductive Scope.Valued (s : Scope) (ps : List Parameter) (args lits : List Expr) :
    Scope → Scope → Prop where
  | same {t : Scope} (ht : t ≠ []) : Valued s ps args lits t t
  | call : Valued s ps args lits (s.activate ps args) (s.activate ps lits)
  | activate {t t' : Scope} (qs : List Parameter) (es : List Expr)
      (h : Valued s ps args lits t t') :
      Valued s ps args lits (t.activate qs es) (t'.activate qs es)

namespace Eval

def Short {α : Type} (x : Except Halt α) : Prop :=
  ∃ halt : Halt, halt.CutShort ∧ x = .error halt

theorem Short.bind {α β : Type} {x : Except Halt α} (h : Short x) (f : α → Except Halt β) :
    Short (x >>= f) := by
  obtain ⟨halt, hshort, rfl⟩ := h
  exact ⟨halt, hshort, rfl⟩

theorem Short.exhausted {α : Type} : Short (.error .exhausted : Except Halt α) :=
  ⟨_, .exhausted, rfl⟩

/-- A frame is added, or the limit is reached. -/
theorem short_enter (frame : StackFrame) (frames : Backtrace) (room : Nat)
    (run : CallStack → Result) :
    Short (enter ⟨frames, room⟩ frame run) ∨
      ∃ less, less + 1 = room ∧ enter ⟨frames, room⟩ frame run = run ⟨frame :: frames, less⟩ := by
  cases room with
  | zero => exact .inl ⟨_, .recursionLimit _ _, rfl⟩
  | succ less => exact .inr ⟨less, rfl, rfl⟩

/-- The literal of the value that an expression comes to in a scope. -/
def Worth (host : Host) (s : Scope) (e lit : Expr) : Prop :=
  ∃ v, Settles host Halt.CutShort s e v ∧ v.literal? = some lit

variable {host : Host} {s : Scope} {e lit : Expr}

variable {ps : List Parameter} {args lits : List Expr}

/-- An expression beside itself in such scopes, or beside the literal that it is worth. -/
def Valued (host : Host) (s : Scope) (ps : List Parameter) (args lits : List Expr) (t : Scope)
    (e : Expr) (t' : Scope) (e' : Expr) : Prop :=
  (Scope.Valued s ps args lits t t' ∧ e' = e) ∨ Worth host t e e'

variable {t t' : Scope}

section Lookups

variable (hs : s ≠ []) (hargs : List.Forall₂ (Worth host s) args lits)
include hs hargs

end Lookups

section Calls

variable {f g : String} {m : Nat} {b : Expr} {vs : List Value}

end Calls

/-- Outcomes that are the same number or boolean, or errors for the same cause. -/
inductive Agree : Result → Result → Prop where
  | number (x : Float) : Agree (.ok (.number x)) (.ok (.number x))
  | boolean (b : Bool) : Agree (.ok (.boolean b)) (.ok (.boolean b))
  | error (cause : EvalError.Cause) (frames frames' : Backtrace) :
      Agree (.error (.error ⟨cause, frames⟩)) (.error (.error ⟨cause, frames'⟩))

/-- Outcomes that depend on how an argument is passed: the limit was reached, or the value is a
function that may hold the argument. -/
inductive Apart : Result → Prop where
  | recursionLimit (limit : Nat) (frames : Backtrace) :
      Apart (.error (.error ⟨.recursionLimit limit, frames⟩))
  | function (c : Closure) : Apart (.ok (.function c))

end Eval

end Reckoner
