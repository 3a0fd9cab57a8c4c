import Mathlib
import Reckoner.Proofs.Except
import Reckoner.Proofs.Scope.Store

/-! # Work on a store beside a computation without one

Work on a store opens tables and binds names in them, and may fail in the middle of it.  Beside it
stands a computation that knows of no store.  That the two go the same way, and that the work leaves
alone what stood in the store before, is shown step by step, by a rule for each way that work is put
together.
-/
namespace Reckoner

theorem Work.run_bind {ε α β : Type} (x : Work ε α) (f : α → Work ε β) (s : Store) :
    (x >>= f).run s = match x.run s with
      | (.ok a, s') => (f a).run s'
      | (.error e, s') => (.error e, s') := by
  change (match x.run s with | (r, s') => ExceptT.bindCont f r s') = _
  rcases x.run s with ⟨_ | _, _⟩ <;> rfl

/-- From the store `s`, work leaves the tables of `base` as they were, whether it fails or not, and
gives something with a property if it gives anything. -/
structure Work.Spares {ε α : Type} (base s : Store) (P : Store → α → Prop) (x : Work ε α) : Prop where
  grows : base.Grows (x.run s).2
  ordered : (x.run s).2.Ordered
  gives : ∀ a, (x.run s).1 = .ok a → P (x.run s).2 a

namespace Work.Spares

variable {ε α γ : Type} {base s : Store} {P : Store → α → Prop} {Q : Store → γ → Prop}

theorem pure (hbase : base.Grows s) (hs : s.Ordered) {a : α} (h : P s a) :
    Spares base s P (Pure.pure a : Work ε α) := by
  refine ⟨hbase, hs, ?_⟩
  rintro _ ⟨⟩
  exact h

theorem throw (hbase : base.Grows s) (hs : s.Ordered) (e : ε) :
    Spares base s P (MonadExcept.throw e : Work ε α) :=
  ⟨hbase, hs, fun _ h => nomatch h⟩

theorem bind {x : Work ε α} {f : α → Work ε γ} (h : Spares base s P x)
    (hf : ∀ s' a, base.Grows s' → s'.Ordered → P s' a → Spares base s' Q (f a)) :
    Spares base s Q (x >>= f) := by
  obtain ⟨hgrows, hordered, hgives⟩ := h
  have hrun := Work.run_bind x f s
  generalize x.run s = outcome at hgrows hordered hgives hrun
  obtain ⟨r, s'⟩ := outcome
  cases r with
  | error e =>
    refine ⟨?_, ?_, ?_⟩ <;> rw [hrun]
    · exact hgrows
    · exact hordered
    · exact fun _ h => nomatch h
  | ok a =>
    obtain ⟨hgrows', hordered', hgives'⟩ := hf s' a hgrows hordered (hgives a rfl)
    refine ⟨?_, ?_, ?_⟩ <;> rw [hrun]
    · exact hgrows'
    · exact hordered'
    · exact hgives'

theorem lift {x : Work ε α} (hbase : base.Grows s) (h : Spares s s P x) : Spares base s P x :=
  ⟨hbase.trans h.grows, h.ordered, h.gives⟩

theorem get {f : Store → Work ε γ} (h : Spares base s Q (f s)) :
    Spares base s Q (MonadState.get >>= f) :=
  ⟨h.grows, h.ordered, h.gives⟩

theorem openChild {f : Nat → Work ε γ} {p : Nat} {purpose : Purpose}
    (h : Spares base (s.addChild p purpose) Q (f s.size)) :
    Spares base s Q (Work.openChild p purpose >>= f) :=
  ⟨h.grows, h.ordered, h.gives⟩

theorem openWith {f : Nat → Work ε γ} (hs : s.Ordered) {p : Nat} (hp : p < s.size)
    (purpose : Purpose) (bindings : List (String × Expr))
    (h : ∀ s' inner, s.Grows s' → s'.Ordered → inner < s'.size → Spares s s' Q (f inner)) :
    Spares s s Q (Work.openWith p purpose bindings >>= f) := by
  obtain ⟨hgrows, hordered, hlt, -⟩ := hs.opened hp purpose bindings
  obtain ⟨hgrows', hordered', hgives⟩ := h _ s.size hgrows hordered hlt
  exact ⟨hgrows', hordered', hgives⟩

end Work.Spares

/-- Work that leaves the tables of `base` as they were and goes, from the store `s`, as a computation
goes that knows no store: it gives something that goes with what that gives, or fails as that does. -/
structure Work.Tracks {ε α β : Type} (base s : Store) (R : Store → α → β → Prop) (x : Work ε α)
    (y : Except ε β) : Prop where
  grows : base.Grows (x.run s).2
  ordered : (x.run s).2.Ordered
  follows : Follows (fun _ => False) (R (x.run s).2) (x.run s).1 y

namespace Work.Tracks

variable {ε α β γ δ : Type} {base s : Store} {R : Store → α → β → Prop} {Q : Store → γ → δ → Prop}

theorem pure (hbase : base.Grows s) (hs : s.Ordered) {a : α} {b : β} (h : R s a b) :
    Tracks base s R (Pure.pure a : Work ε α) (.ok b) :=
  ⟨hbase, hs, .ok h⟩

theorem throw (hbase : base.Grows s) (hs : s.Ordered) (e : ε) :
    Tracks base s R (MonadExcept.throw e : Work ε α) (.error e) :=
  ⟨hbase, hs, .error e⟩

theorem bind {x : Work ε α} {y : Except ε β} {f : α → Work ε γ} {g : β → Except ε δ}
    (h : Tracks base s R x y)
    (hf : ∀ s' a b, base.Grows s' → s'.Ordered → R s' a b → Tracks base s' Q (f a) (g b)) :
    Tracks base s Q (x >>= f) (y >>= g) := by
  obtain ⟨hgrows, hordered, hfollows⟩ := h
  have hrun := Work.run_bind x f s
  generalize x.run s = outcome at hgrows hordered hfollows hrun
  obtain ⟨r, s'⟩ := outcome
  cases r with
  | error e =>
    obtain rfl := hfollows.resolve_left id
    refine ⟨?_, ?_, ?_⟩ <;> rw [hrun]
    · exact hgrows
    · exact hordered
    · exact .error e
  | ok a =>
    obtain ⟨b, rfl, hab⟩ := hfollows
    obtain ⟨hgrows', hordered', hfollows'⟩ := hf s' a b hgrows hordered hab
    refine ⟨?_, ?_, ?_⟩ <;> rw [hrun]
    · exact hgrows'
    · exact hordered'
    · exact hfollows'

/-- What leaves the tables of a store alone leaves those of an earlier one alone. -/
theorem lift {x : Work ε α} {y : Except ε β} (hbase : base.Grows s) (h : Tracks s s R x y) :
    Tracks base s R x y :=
  ⟨hbase.trans h.grows, h.ordered, h.follows⟩

/-- The other computation may go on to something that is worked out at once. -/
theorem map {x : Work ε α} {y : Except ε β} {P : Store → α → δ → Prop} {g : β → δ}
    (h : Tracks base s R x y) (hg : ∀ s' a b, R s' a b → P s' a (g b)) :
    Tracks base s P x (y >>= fun b => .ok (g b)) := by
  refine ⟨h.grows, h.ordered, ?_⟩
  have hfollows := h.follows
  generalize (x.run s).1 = r at hfollows
  cases r with
  | error e =>
    obtain rfl := hfollows.resolve_left id
    exact .error e
  | ok a =>
    obtain ⟨b, rfl, hab⟩ := hfollows
    exact .ok (hg _ a b hab)

theorem get {f : Store → Work ε γ} {y : Except ε δ} (h : Tracks base s Q (f s) y) :
    Tracks base s Q (MonadState.get >>= f) y :=
  ⟨h.grows, h.ordered, h.follows⟩

theorem openChild {f : Nat → Work ε γ} {y : Except ε δ} {p : Nat} {purpose : Purpose}
    (h : Tracks base (s.addChild p purpose) Q (f s.size) y) :
    Tracks base s Q (Work.openChild p purpose >>= f) y :=
  ⟨h.grows, h.ordered, h.follows⟩

/-- A table is opened, and what follows works inside it. -/
theorem openWith {f : Nat → Work ε γ} {y : Except ε δ} (hs : s.Ordered) {p : Nat} (hp : p < s.size)
    (purpose : Purpose) (bindings : List (String × Expr))
    (h : ∀ s' inner, s.Grows s' → s'.Ordered → inner < s'.size →
      s'.view inner = ⟨purpose, .ofList bindings, none⟩ :: s.view p → Tracks s s' Q (f inner) y) :
    Tracks s s Q (Work.openWith p purpose bindings >>= f) y := by
  obtain ⟨hgrows, hordered, hlt, hview⟩ := hs.opened hp purpose bindings
  obtain ⟨hgrows', hordered', hfollows⟩ := h _ s.size hgrows hordered hlt hview
  exact ⟨hgrows', hordered', hfollows⟩

/-- Work may look at how other work went. -/
theorem attempt {ε' : Type} {x : Work ε α} {y : Except ε β} {f : Except ε α → Work ε' γ}
    {z : Except ε' δ} (h : Tracks base s R x y)
    (hf : ∀ s' r, base.Grows s' → s'.Ordered → Follows (fun _ => False) (R s') r y →
      Tracks base s' Q (f r) z) :
    Tracks base s Q (ExceptT.lift x.run >>= f) z := by
  obtain ⟨hgrows, hordered, hfollows⟩ := hf _ _ h.grows h.ordered h.follows
  exact ⟨hgrows, hordered, hfollows⟩

end Work.Tracks

end Reckoner
