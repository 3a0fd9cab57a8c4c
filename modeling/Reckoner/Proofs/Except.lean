import Mathlib
/-! # Computations that may fail

What the steps of a computation in `Except` say about the whole of it, and when one computation
does what another does.
-/
namespace Reckoner

variable {ε α β γ δ : Type}

@[simp] theorem ok_bind (a : α) (f : α → Except ε β) : (Except.ok a >>= f) = f a := rfl

@[simp] theorem error_bind (e : ε) (f : α → Except ε β) : (Except.error e >>= f) = .error e := rfl

@[simp] theorem pure_eq_ok (a : α) : (pure a : Except ε α) = .ok a := rfl

/-- A sequence of two steps succeeds exactly when the first does and the second does after it. -/
theorem bind_eq_ok_iff {x : Except ε α} {f : α → Except ε β} {b : β} :
    x >>= f = .ok b ↔ ∃ a, x = .ok a ∧ f a = .ok b := by
  cases x with
  | error e => simp
  | ok a => simp

/-- A sequence of two steps fails as the first does, or as the second does after it. -/
theorem bind_eq_error_iff {x : Except ε α} {f : α → Except ε β} {e : ε} :
    x >>= f = .error e ↔ x = .error e ∨ ∃ a, x = .ok a ∧ f a = .error e := by
  cases x with
  | error e' => simp
  | ok a => simp

theorem mapError_eq_ok_iff {δ : Type} {x : Except ε α} {f : ε → δ} {a : α} :
    x.mapError f = .ok a ↔ x = .ok a := by
  cases x with
  | error e => simp [Except.mapError]
  | ok b => simp [Except.mapError]

/-- The second computation follows the first: it gives something that goes with what the first
gives, and fails as the first fails, unless the first fails in a way that is excused. -/
def Follows (excused : ε → Prop) (R : α → β → Prop) (x : Except ε α) (y : Except ε β) : Prop :=
  match x with
  | .ok a => ∃ b, y = .ok b ∧ R a b
  | .error e => excused e ∨ y = .error e

namespace Follows

variable {excused : ε → Prop} {R : α → β → Prop}

theorem ok {a : α} {b : β} (h : R a b) : Follows excused R (.ok a) (.ok b) :=
  ⟨b, rfl, h⟩

theorem of_excused {e : ε} (h : excused e) (y : Except ε β) : Follows excused R (.error e) y :=
  .inl h

theorem error (e : ε) : Follows excused R (.error e) (.error e) :=
  .inr rfl

theorem bind {Q : γ → δ → Prop} {x : Except ε α} {y : Except ε β} {f : α → Except ε γ}
    {g : β → Except ε δ} (h : Follows excused R x y)
    (hf : ∀ a b, R a b → Follows excused Q (f a) (g b)) :
    Follows excused Q (x >>= f) (y >>= g) := by
  cases x with
  | ok a =>
    obtain ⟨b, rfl, hab⟩ := h
    exact hf a b hab
  | error e =>
    rcases h with h | rfl
    · exact .inl h
    · exact .inr rfl

theorem imp {Q : α → β → Prop} {x : Except ε α} {y : Except ε β} (h : Follows excused R x y)
    (himp : ∀ a b, R a b → Q a b) : Follows excused Q x y := by
  cases x with
  | ok a =>
    obtain ⟨b, rfl, hab⟩ := h
    exact .ok (himp a b hab)
  | error e => exact h

/-- Where nothing is excused, errors may be told in other words. -/
theorem mapError {δ : Type} {x : Except ε α} {y : Except ε β} (h : Follows (fun _ => False) R x y)
    (f : ε → δ) : Follows (fun _ => False) R (x.mapError f) (y.mapError f) := by
  cases x with
  | ok a =>
    obtain ⟨b, rfl, hab⟩ := h
    exact .ok hab
  | error e =>
    obtain rfl := h.resolve_left id
    exact .error (f e)

theorem eq {x y : Except ε α} (h : Follows excused Eq x y) (hx : ∀ e, x = .error e → ¬ excused e) :
    y = x := by
  cases x with
  | ok a =>
    obtain ⟨b, rfl, rfl⟩ := h
    rfl
  | error e => exact h.resolve_left (hx e rfl)

end Follows

theorem mapError_bind_congr {δ : Type} {f : ε → δ} {x y : Except ε α} {g h : α → Except ε β}
    (hxy : x.mapError f = y.mapError f) (hgh : ∀ a, (g a).mapError f = (h a).mapError f) :
    (x >>= g).mapError f = (y >>= h).mapError f := by
  cases x with
  | ok a =>
    cases y with
    | ok b =>
      cases hxy
      exact hgh a
    | error e => cases hxy
  | error d =>
    cases y with
    | ok b => cases hxy
    | error e => exact congrArg Except.error (Except.error.inj hxy)

end Reckoner
