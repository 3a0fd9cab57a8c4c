import Mathlib
import Reckoner.Prelude
import Reckoner.Proofs.Except

/-! # Hosts

What host functions do with closures is open, and so is what can be said of programs that hand closures
to them.  Two things can be asked of a host: that whatever holds of the arguments also holds of what its
functions make of them, and that related arguments lead to related values.  A host that cannot see what
a closure has captured has the second for all relations of closures with one function literal.
-/
namespace Reckoner

/-- A value that has captured no place from `n` on. -/
def Value.Below (n : Nat) : Value → Prop
  | .function c => ∀ f ∈ c.scope, ∀ p ∈ f.home, p < n
  | _ => True

/-- Values that are the same, except that closures are related by `K`. -/
inductive Value.Alike (K : Closure → Closure → Prop) : Value → Value → Prop where
  | number (x : Float) : Alike K (.number x) (.number x)
  | boolean (b : Bool) : Alike K (.boolean b) (.boolean b)
  | function {c c' : Closure} (h : K c c') : Alike K (.function c) (.function c')

namespace Value.Alike

variable {K : Closure → Closure → Prop} {v v' w w' : Value}

theorem shape (h : Alike K v v') : v'.shape = v.shape := by
  cases h <;> rfl

theorem literal? (h : Alike K v v') : v'.literal? = v.literal? := by
  cases h <;> rfl

theorem simpleType? (h : Alike K v v') : v'.simpleType? = v.simpleType? := by
  cases h <;> rfl

theorem refl (hK : ∀ c, K c c) (v : Value) : Alike K v v := by
  cases v with
  | number x => exact .number x
  | boolean b => exact .boolean b
  | function c => exact .function (hK c)

theorem eq (h : Alike K v v') (hK : ∀ c c', K c c' → c' = c) : v' = v := by
  cases h with
  | number x => rfl
  | boolean b => rfl
  | function h => rw [hK _ _ h]

theorem imp {K' : Closure → Closure → Prop} (h : Alike K v v') (hK : ∀ c c', K c c' → K' c c') :
    Alike K' v v' := by
  cases h with
  | number x => exact .number x
  | boolean b => exact .boolean b
  | function h => exact .function (hK _ _ h)

theorem of_simple (h : (∃ x, v = .number x) ∨ ∃ b, v = .boolean b) : Alike K v v := by
  rcases h with ⟨x, rfl⟩ | ⟨b, rfl⟩
  · exact .number x
  · exact .boolean b

theorem eq_of_simple (h : Alike K v v') (hv : (∃ x, v = .number x) ∨ ∃ b, v = .boolean b) :
    v' = v := by
  rcases hv with ⟨x, rfl⟩ | ⟨b, rfl⟩ <;> cases h <;> rfl

theorem apply (op : Operator) (hv : Alike K v v') (hw : Alike K w w') :
    op.apply v' w' = op.apply v w := by
  cases hv <;> cases hw <;> cases op <;> rfl

theorem numbers {vs vs' : List Value} (h : List.Forall₂ (Alike K) vs vs') :
    MathFunction.numbers vs' = MathFunction.numbers vs := by
  induction h with
  | nil => rfl
  | cons hv _ ih => cases hv <;> simp only [MathFunction.numbers, ih, Value.shape]

end Value.Alike

namespace Host

/-- Given arguments with a property, host functions give values with it. -/
def Keeps (host : Host) (P : Value → Prop) : Prop :=
  ∀ f args v, (∀ a ∈ args, P a) → host.run f args = .ok v → P v

/-- Given arguments that are alike, host functions give values that are alike, or fail with one
message. -/
def Respects (host : Host) (K : Closure → Closure → Prop) : Prop :=
  ∀ f args args', List.Forall₂ (Value.Alike K) args args' →
    Follows (fun _ => False) (Value.Alike K) (host.run f args) (host.run f args')

/-- Host functions do not look into the scopes that closures have captured.  They may look at function
literals, may hand closures on, and may make closures that do not depend on those scopes. -/
def Blind (host : Host) : Prop :=
  ∀ K : Closure → Closure → Prop, (∀ c, K c c) → (∀ c c', K c c' → c'.literal = c.literal) →
    host.Respects K

/-- Host functions give no closure but one that they were given. -/
def GivesBack (host : Host) : Prop :=
  ∀ f args c, host.run f args = .ok (.function c) → .function c ∈ args

/-- Host functions give no closure that has captured a later place of a store than their arguments have.
They may look at everything that these have captured, and may make closures of their own. -/
def Confined (host : Host) : Prop :=
  ∀ n, host.Keeps (Value.Below n)

variable {host : Host}

theorem GivesBack.keeps (hhost : host.GivesBack) {P : Value → Prop} (hnumber : ∀ x, P (.number x))
    (hboolean : ∀ b, P (.boolean b)) : host.Keeps P := by
  intro f args v hargs h
  cases v with
  | number x => exact hnumber x
  | boolean b => exact hboolean b
  | function c => exact hargs _ (hhost f args c h)

theorem GivesBack.confined (hhost : host.GivesBack) : host.Confined :=
  fun _ => hhost.keeps (fun _ => trivial) fun _ => trivial

/-- On the same arguments every host does the same. -/
theorem respects_of_eq (host : Host) {K : Closure → Closure → Prop} (hrefl : ∀ c, K c c)
    (heq : ∀ c c', K c c' → c' = c) : host.Respects K := by
  intro f args args' h
  have hsame : args' = args := by
    induction h with
    | nil => rfl
    | cons hv _ ih => rw [hv.eq heq, ih]
  rw [hsame]
  cases host.run f args with
  | ok v => exact .ok (.refl hrefl v)
  | error message => exact .error message

theorem respects_eq (host : Host) : host.Respects Eq :=
  host.respects_of_eq (fun _ => rfl) fun _ _ h => h.symm

def handsOn : Host where
  run _ args := .ok (args.headD (.number 0.0))

theorem handsOn_givesBack : handsOn.GivesBack := by
  intro f args c h
  cases args with
  | nil => cases h
  | cons a args =>
    cases h
    exact List.mem_cons_self

end Host

theorem MathFunction.number_of_apply {f : MathFunction} {args : List Value} {v : Value}
    (h : f.apply args = .ok v) : ∃ x, v = .number x := by
  unfold MathFunction.apply at h
  dsimp only at h
  split at h
  · split at h
    · cases h
    · rename_i xs _
      cases hc : f.compute? xs with
      | none => rw [hc] at h; cases h
      | some x => rw [hc] at h; cases h; exact ⟨x, rfl⟩
  · cases h

namespace Prelude

theorem run_eq (f : HostFunction) (args : List Value) :
    host.run f args = (mathFunction? f).elim (.error "unknown host function") (·.apply args) :=
  rfl

/-- The functions of a session's host give numbers. -/
theorem number_of_run {f : HostFunction} {args : List Value} {v : Value}
    (h : host.run f args = .ok v) : ∃ x, v = .number x := by
  rw [run_eq] at h
  cases hf : mathFunction? f with
  | none =>
    rw [hf] at h
    cases h
  | some g =>
    rw [hf] at h
    exact MathFunction.number_of_apply h

/-- For the functions of a session's host one closure is as good as another. -/
theorem respects (K : Closure → Closure → Prop) : host.Respects K := by
  intro f args args' h
  have hsame : host.run f args' = host.run f args := by
    simp only [run_eq, MathFunction.apply, Value.Alike.numbers h, h.length_eq]
  rw [hsame]
  cases hrun : host.run f args with
  | ok v => exact .ok (.of_simple (.inl (number_of_run hrun)))
  | error message => exact .error message

theorem blind : host.Blind :=
  fun K _ _ => respects K

theorem givesBack : host.GivesBack := by
  intro f args c h
  obtain ⟨x, hx⟩ := number_of_run h
  cases hx

theorem confined : host.Confined :=
  givesBack.confined

end Prelude

end Reckoner
