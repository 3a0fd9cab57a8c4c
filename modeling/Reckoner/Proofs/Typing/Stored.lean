import Mathlib
import Reckoner.Proofs.Eval.Stored
import Reckoner.Typing.Stored

/-! # Checks in a store

A check at a place of a store opens tables for the parameters of functions and touches no other.  It
comes to what a check in the scope of the place comes to, and that does not depend on where the frames
of the scope have their places.
-/
namespace Reckoner

namespace Typing

/-- A check does not depend on where the frames of a scope have their places. -/
theorem checkWithin_bare (limit room : Nat) (s : Scope) (e : Expr) :
    checkWithin limit room s.bare e = checkWithin limit room s e := by
  induction room generalizing s e with
  | zero => rfl
  | succ room ih =>
    have hsame : checkWithin limit room s.bare = checkWithin limit room s := funext (ih s)
    cases e with
    | number x => rfl
    | boolean b => rfl
    | parameter p => rfl
    | native code => rfl
    | symbol n =>
      rw [checkWithin, checkWithin, Scope.resolve?_bare, Scope.suggest?_bare]
      cases s.resolve? n with
      | none => rfl
      | some found => exact ih found.2 found.1
    | binary op l r => rw [checkWithin, checkWithin, ih, ih]
    | function m ps b => rw [checkWithin, checkWithin, ← Scope.bare_declare, ih]
    | call f args =>
      rw [checkWithin, checkWithin, Scope.resolve?_bare, Scope.suggest?_bare, hsame]
      cases s.resolve? f with
      | none => rfl
      | some found =>
        obtain ⟨bound, env⟩ := found
        simp only [Option.map_some, ih]

theorem checkFunction_bare (limit : Nat) (s : Scope) (ps : List Parameter) (body : Expr) :
    checkFunction limit s.bare ps body = checkFunction limit s ps body := by
  rw [checkFunction, checkFunction, ← Scope.bare_declare, check, check, checkWithin_bare]

end Typing

namespace Typing.Stored

open Work (Tracks)

variable {s : Store}

theorem checkArguments_tracks (hs : s.Ordered) {run : Expr → Work TypeError Ty} {run' : Expr → Result}
    (hrun : ∀ s' e, s.Grows s' → s'.Ordered → Tracks s' s' (fun _ => Eq) (run e) (run' e))
    (params : List Ty) (args : List Expr) :
    Tracks s s (fun _ => Eq) (checkArguments run params args)
      (Typing.checkArguments run' params args) := by
  induction params generalizing s args with
  | nil => cases args <;> exact .pure (.refl s) hs rfl
  | cons p params ih =>
    cases args with
    | nil => exact .pure (.refl s) hs rfl
    | cons a args =>
      refine (hrun s a (.refl s) hs).bind fun s₁ ty ty' hgrows hs₁ hty => .lift hgrows ?_
      subst hty
      split
      · exact ih hs₁ (fun s' e hgrows' => hrun s' e (hgrows.trans hgrows')) args
      · exact .throw (.refl s₁) hs₁ _

theorem checkFunction_tracks (hs : s.Ordered) {p : Nat} (hp : p < s.size) (params : List Parameter)
    (body : Expr) {run : Nat → Expr → Work TypeError Ty} {y : Result}
    (hrun : ∀ s' inner, s.Grows s' → s'.Ordered → inner < s'.size →
      s'.view inner = (s.view p).declare params → Tracks s' s' (fun _ => Eq) (run inner body) y) :
    Tracks s s (fun _ => Eq) (checkFunction run p params body)
      (y >>= fun result => .ok (.function (params.map (·.ty)) result)) := by
  refine .openWith hs hp .check _ fun s₁ inner hgrows hs₁ hinner hview => .lift hgrows ?_
  refine (hrun s₁ inner hgrows hs₁ hinner hview).bind fun s₂ ty ty' hgrows' hs₂ hty => ?_
  exact .pure hgrows' hs₂ (congrArg _ hty)

/-- A check in a store is a check in the scope of its place. -/
theorem checkWithin_tracks (limit room : Nat) (hs : s.Ordered) {p : Nat} (hp : p < s.size)
    (e : Expr) :
    Tracks s s (fun _ => Eq) (checkWithin limit room p e)
      (Typing.checkWithin limit room (s.view p) e) := by
  induction room generalizing s p e with
  | zero => exact .throw (.refl s) hs _
  | succ room ih =>
    have hrefl : s.Grows s := .refl s
    -- The parts of an expression are checked at its place, where nothing changes in between.
    have hpart : ∀ (s' : Store) (d : Expr), s.Grows s' → s'.Ordered →
        Tracks s' s' (fun _ => Eq) (checkWithin limit room p d)
          (Typing.checkWithin limit room (s.view p) d) := by
      intro s' d hgrows hs'
      have h := ih hs' (hp.trans_le hgrows.size_le) d
      rwa [hgrows.view_eq hs hs' hp] at h
    cases e with
    | number x => exact .pure hrefl hs rfl
    | boolean b => exact .pure hrefl hs rfl
    | parameter param => exact .pure hrefl hs rfl
    | native code => exact .pure hrefl hs rfl
    | symbol n =>
      rw [checkWithin, Typing.checkWithin]
      refine .get ?_
      obtain ⟨hresolve, hlt⟩ := hs.resolve?_view hp n
      rw [hresolve, Store.suggest?_view]
      cases hread : s.read? p n with
      | none => exact .throw hrefl hs _
      | some found => exact ih hs (hlt _ _ hread) found.1
    | binary op l r =>
      rw [checkWithin, Typing.checkWithin]
      refine (hpart s l hrefl hs).bind fun s₁ left left' hgrows hs₁ hleft => .lift hgrows ?_
      refine (hpart s₁ r hgrows hs₁).bind fun s₂ right right' hgrows' hs₂ hright => ?_
      subst hleft hright
      split
      · exact .pure hgrows' hs₂ rfl
      · exact .throw hgrows' hs₂ _
    | function m ps b =>
      rw [checkWithin, Typing.checkWithin]
      refine checkFunction_tracks hs hp ps b fun s₁ inner hgrows hs₁ hinner hview => ?_
      rw [← hview]
      exact ih hs₁ hinner b
    | call f args =>
      rw [checkWithin, Typing.checkWithin]
      refine .get ?_
      obtain ⟨hresolve, hlt⟩ := hs.resolve?_view hp f
      rw [hresolve, Store.suggest?_view]
      cases hread : s.read? p f with
      | none => exact .throw hrefl hs _
      | some found =>
        obtain ⟨bound, env⟩ := found
        refine (ih hs (hlt _ _ hread) bound).bind fun s₁ ty ty' hgrows hs₁ hty => .lift hgrows ?_
        subst hty
        cases ty with
        | number => exact .throw (.refl s₁) hs₁ _
        | boolean => exact .throw (.refl s₁) hs₁ _
        | function params result =>
          dsimp only
          split
          · have hargs := checkArguments_tracks hs₁
              (fun s' d hgrows' => hpart s' d (hgrows.trans hgrows')) params args
            exact hargs.bind fun s₂ _ _ hgrows' hs₂ _ => .pure hgrows' hs₂ rfl
          · exact .throw (.refl s₁) hs₁ _

theorem check_tracks (limit : Nat) (hs : s.Ordered) {p : Nat} (hp : p < s.size) (e : Expr) :
    Tracks s s (fun _ => Eq) (check limit p e) (Typing.check limit (s.view p) e) :=
  checkWithin_tracks limit limit hs hp e

end Typing.Stored

namespace Kept

open Work (Tracks)

variable {s : Store} {k : Kept}

/-- The type of a kept value is the type of the value that it stands for now. -/
theorem type_tracks (limit : Nat) (hs : s.Ordered) (hk : k.In s) :
    Tracks s s (fun _ => Eq) (k.type limit) ((k.value s).type limit) := by
  cases k with
  | number x => exact .pure (.refl s) hs rfl
  | boolean b => exact .pure (.refl s) hs rfl
  | function m ps body p =>
    have hp : p < s.size := hk p rfl
    rw [type, value, Value.type, ← Typing.checkFunction_bare]
    refine Typing.Stored.checkFunction_tracks hs hp ps body
      fun s₁ inner hgrows hs₁ hinner hview => ?_
    have h := Typing.Stored.check_tracks limit hs₁ hinner body
    rwa [hview] at h

theorem describe_tracks {ε : Type} (hs : s.Ordered) (hk : k.In s) :
    Tracks s s (fun _ => Eq) (k.describe : Work ε String) (.ok (k.value s).describe) := by
  cases k with
  | number x => exact .pure (.refl s) hs rfl
  | boolean b => exact .pure (.refl s) hs rfl
  | function m ps body p =>
    refine (type_tracks Typing.defaultLimit hs hk).attempt fun s' r hgrows hs' hr => ?_
    rw [value] at hr ⊢
    rw [Value.describe]
    cases r with
    | error err =>
      rw [hr.resolve_left id]
      exact .pure hgrows hs' rfl
    | ok ty =>
      obtain ⟨ty', hty, rfl⟩ := hr
      rw [hty]
      exact .pure hgrows hs' rfl

end Kept

end Reckoner
