import Mathlib
import Reckoner.Proofs.Except
import Reckoner.Stateful

/-! # Computations that leave a state in order

Beside a computation on a state stands one that has no state.  That the two come to the same, and that
the first leaves its state in order whether it fails or not, is shown step by step, by a rule for each way
that computations are put together.
-/
namespace Reckoner.Stateful

variable {σ ε α β : Type}

theorem outcome_bind (x : Stateful σ ε α) (f : α → Stateful σ ε β) (s : σ) :
    (x >>= f).outcome s = match x.outcome s with
      | some (.ok a, t) => (f a).outcome t
      | some (.error e, t) => some (.error e, t)
      | none => none := by
  change (StateT.run x.run s).bind _ = _
  rw [outcome]
  rcases StateT.run x.run s with _ | ⟨_ | _, _⟩ <;> rfl

theorem outcome_attempt (x : Stateful σ ε α) (s : σ) :
    outcome (ExceptT.lift x.run : Stateful σ ε (Except ε α)) s =
      (x.outcome s).map fun r => (.ok r.1, r.2) := by
  change (StateT.run x.run s).bind _ = _
  rw [outcome]
  rcases StateT.run x.run s with _ | ⟨_, _⟩ <;> rfl

theorem outcome_change (f : σ → Option σ) (s : σ) :
    outcome (change f : Stateful σ ε Unit) s = (f s).map fun t => (.ok (), t) := by
  change ((f s).map fun t => ((), t)).bind _ = _
  cases f s <;> rfl

/-- From the state `s` a computation comes to what one without a state comes to, does not get stuck, and
leaves a state that is in order. -/
def Keeps (Q : σ → Prop) (s : σ) (x : Stateful σ ε α) (y : Except ε α) : Prop :=
  ∃ t, Q t ∧ x.outcome s = some (y, t)

namespace Keeps

variable {Q R : σ → Prop} {s : σ} {x : Stateful σ ε α} {y : Except ε α}

theorem pure (hs : Q s) (a : α) : Keeps Q s (Pure.pure a : Stateful σ ε α) (.ok a) :=
  ⟨s, hs, rfl⟩

theorem throw (hs : Q s) (e : ε) :
    Keeps Q s (MonadExcept.throw e : Stateful σ ε α) (.error e) :=
  ⟨s, hs, rfl⟩

theorem get {f : σ → Stateful σ ε α} (h : Keeps Q s (f s) y) :
    Keeps Q s (MonadState.get >>= f) y := by
  obtain ⟨t, ht, hf⟩ := h
  exact ⟨t, ht, hf⟩

theorem bind {f : α → Stateful σ ε β} {g : α → Except ε β} (h : Keeps Q s x y)
    (hf : ∀ t a, Q t → Keeps Q t (f a) (g a)) : Keeps Q s (x >>= f) (y >>= g) := by
  obtain ⟨t, ht, hx⟩ := h
  cases y with
  | error e => exact ⟨t, ht, by rw [outcome_bind, hx]; rfl⟩
  | ok a =>
    obtain ⟨u, hu, hfa⟩ := hf t a ht
    exact ⟨u, hu, by rw [outcome_bind, hx]; exact hfa⟩

/-- The second of two steps puts in order what the computation between them leaves, however that has
ended. -/
theorem between {before after : Stateful σ ε Unit} {t : σ}
    (hbefore : before.outcome s = some (.ok (), t)) (hx : Keeps R t x y)
    (hafter : ∀ u, R u → ∃ v, Q v ∧ after.outcome u = some (.ok (), v)) :
    Keeps Q s (between before after x) y := by
  obtain ⟨u, hu, hrun⟩ := hx
  obtain ⟨v, hv, hend⟩ := hafter u hu
  refine ⟨v, hv, ?_⟩
  rw [Stateful.between, outcome_bind, hbefore]
  dsimp only
  rw [outcome_bind, outcome_attempt, hrun]
  dsimp only [Option.map_some]
  rw [outcome_bind, hend]
  cases y <;> rfl

/-- If the first step fails, the computation after it is not run. -/
theorem between_error {before after : Stateful σ ε Unit} {t : σ} {e : ε} (ht : Q t)
    (hbefore : before.outcome s = some (.error e, t)) :
    Keeps Q s (Stateful.between before after x) (.error e) := by
  refine ⟨t, ht, ?_⟩
  rw [Stateful.between, outcome_bind, hbefore]

end Keeps

/-- The second computation comes to what the first comes to, unless that gets stuck. -/
def Extends (x x' : Stateful σ ε α) : Prop :=
  ∀ s r, x.outcome s = some r → x'.outcome s = some r

namespace Extends

theorem refl (x : Stateful σ ε α) : Extends x x :=
  fun _ _ h => h

theorem of_stuck (x : Stateful σ ε α) : Extends stuck x :=
  fun _ _ h => nomatch h

theorem bind {x x' : Stateful σ ε α} {f f' : α → Stateful σ ε β} (hx : Extends x x')
    (hf : ∀ a, Extends (f a) (f' a)) : Extends (x >>= f) (x' >>= f') := by
  intro s r h
  rw [outcome_bind] at h ⊢
  cases hrun : x.outcome s with
  | none =>
    rw [hrun] at h
    cases h
  | some result =>
    rw [hx s result hrun]
    rw [hrun] at h
    obtain ⟨_ | a, t⟩ := result
    · exact h
    · exact hf a t r h

end Extends

end Reckoner.Stateful
