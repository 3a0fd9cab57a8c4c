import Mathlib
import Reckoner.Ty

/-! # Captions of types

A caption ends where its type ends: whatever text follows, the type can be read off the caption, and the
text that follows is left.  Numbers and booleans are told by the first letter, and a function's caption
closes its own brackets; in a list of types a comma follows every caption but the last, and a parenthesis
follows that one.  So two types with the same caption are the same type.
-/
namespace Reckoner.Ty

/-- The captions of the types that stand in a list after another one. -/
def following : List Ty → String
  | [] => ""
  | p :: ps => ", " ++ caption p ++ following ps

theorem captions_cons (p : Ty) (ps : List Ty) :
    captions (p :: ps) = caption p ++ following ps := by
  induction ps generalizing p with
  | nil => simp [captions, following]
  | cons q ps ih => simp [captions, ih, following, String.append_assoc]

/-- No caption starts with the parenthesis that closes a list. -/
theorem caption_append_ne_closing (p : Ty) (s t : List Char) :
    (caption p).toList ++ s ≠ ')' :: t := by
  cases p <;> simp [caption]

mutual

theorem eq_of_caption_append : ∀ {a b : Ty} {s t : List Char},
    (caption a).toList ++ s = (caption b).toList ++ t → a = b ∧ s = t
  | number, b, s, t, h => by
    cases b with
    | number => exact ⟨rfl, List.append_cancel_left h⟩
    | boolean | function => simp [caption] at h
  | boolean, b, s, t, h => by
    cases b with
    | boolean => exact ⟨rfl, List.append_cancel_left h⟩
    | number | function => simp [caption] at h
  | function ps r, b, s, t, h => by
    cases b with
    | number | boolean => simp [caption] at h
    | function qs r' =>
      have hparams : (captions ps).toList ++ ')' :: (" -> ".toList ++ (caption r).toList ++ ']' :: s) =
          (captions qs).toList ++ ')' :: (" -> ".toList ++ (caption r').toList ++ ']' :: t) := by
        simpa [caption] using h
      obtain ⟨rfl, hrest⟩ := eq_of_captions_append hparams
      have hresult : (caption r).toList ++ ']' :: s = (caption r').toList ++ ']' :: t := by
        simpa using hrest
      obtain ⟨rfl, hend⟩ := eq_of_caption_append hresult
      exact ⟨rfl, List.tail_eq_of_cons_eq hend⟩

theorem eq_of_captions_append : ∀ {ps qs : List Ty} {s t : List Char},
    (captions ps).toList ++ ')' :: s = (captions qs).toList ++ ')' :: t → ps = qs ∧ s = t
  | [], [], s, t, h => ⟨rfl, by simpa [captions] using h⟩
  | [], q :: qs, s, t, h => by
    rw [captions_cons, String.toList_append, List.append_assoc] at h
    exact absurd h.symm (caption_append_ne_closing q _ s)
  | p :: ps, [], s, t, h => by
    rw [captions_cons, String.toList_append, List.append_assoc] at h
    exact absurd h (caption_append_ne_closing p _ t)
  | p :: ps, q :: qs, s, t, h => by
    simp only [captions_cons, String.toList_append, List.append_assoc] at h
    obtain ⟨rfl, hrest⟩ := eq_of_caption_append h
    obtain ⟨rfl, hend⟩ := eq_of_following_append hrest
    exact ⟨rfl, hend⟩

theorem eq_of_following_append : ∀ {ps qs : List Ty} {s t : List Char},
    (following ps).toList ++ ')' :: s = (following qs).toList ++ ')' :: t → ps = qs ∧ s = t
  | [], [], s, t, h => ⟨rfl, by simpa [following] using h⟩
  | [], q :: qs, s, t, h => by simp [following] at h
  | p :: ps, [], s, t, h => by simp [following] at h
  | p :: ps, q :: qs, s, t, h => by
    have hfirst : (caption p).toList ++ ((following ps).toList ++ ')' :: s) =
        (caption q).toList ++ ((following qs).toList ++ ')' :: t) := by
      simpa [following] using h
    obtain ⟨rfl, hrest⟩ := eq_of_caption_append hfirst
    obtain ⟨rfl, hend⟩ := eq_of_following_append hrest
    exact ⟨rfl, hend⟩

end

/-- Types are told apart by their captions. -/
theorem caption_eq_iff (a b : Ty) : caption a = caption b ↔ a = b := by
  refine ⟨fun h => ?_, congrArg caption⟩
  have hchars : (caption a).toList ++ [] = (caption b).toList ++ [] := by rw [h]
  exact (eq_of_caption_append hchars).1

end Reckoner.Ty
