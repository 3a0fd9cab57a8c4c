import Mathlib
import Reckoner.Proofs.Text.Graphic

/-! # The lines of a text

A text is cut into lines at its line feeds.  Where no line has a line feed in it, a text that is put
together from lines is cut into these lines again, whether line feeds stand between them or after each
of them.
-/
namespace Reckoner.Text

/-- The parts of a text between its line feeds. -/
def cut (s : String) : List String :=
  (s.toList.splitOn '\n').map String.ofList

def OneLine (s : String) : Prop :=
  '\n' ∉ s.toList

/-- A line feed is a control character. -/
theorem Graphic.oneLine {s : String} (h : Graphic s) : OneLine s :=
  fun hc => absurd (h '\n' hc) (by decide)

theorem cut_append_newline {s : String} (h : OneLine s) (t : String) :
    cut (s ++ "\n" ++ t) = s :: cut t := by
  have hchars : (s ++ "\n" ++ t).toList = s.toList ++ '\n' :: t.toList := by simp
  rw [cut, hchars, List.splitOn_append_cons_self_of_not_mem h, List.map_cons, String.ofList_toList]
  rfl

theorem cut_intercalate {ls : List String} (h : ∀ l ∈ ls, OneLine l) (hne : ls ≠ []) :
    cut ("\n".intercalate ls) = ls := by
  have hchars : ("\n".intercalate ls).toList = ['\n'].intercalate (ls.map String.toList) := by
    rw [String.toList_intercalate]
    rfl
  rw [cut, hchars, List.splitOn_intercalate]
  · simp
  · simpa [OneLine] using h
  · simpa using hne

/-- Lines with a line feed after each of them are followed by an empty line. -/
theorem cut_join {ls : List String} (h : ∀ l ∈ ls, OneLine l) :
    cut (String.join (ls.map (· ++ "\n"))) = ls ++ [""] := by
  induction ls with
  | nil => rfl
  | cons l ls ih =>
    obtain ⟨hl, hls⟩ := List.forall_mem_cons.mp h
    rw [List.map_cons, String.join_cons, cut_append_newline hl, ih hls, List.cons_append]

end Reckoner.Text
