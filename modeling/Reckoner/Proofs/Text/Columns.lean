import Mathlib
import Reckoner.Proofs.Text.Lines
import Reckoner.Session.Listing

/-! # Columns

A listing is a rectangle of characters.  Each of its columns is exactly as wide as the widest cell in it,
the heading's among them, so no cell is cut off, and a line for a row is as long as the rules are.
-/
namespace Reckoner

open Text (Graphic OneLine)

theorem Diagnostic.length_row (c : Char) (count : Nat) : (row c count).length = count := by
  rw [row, String.length_ofList, List.length_replicate]

theorem Diagnostic.graphic_row {c : Char} (h : 0x20 ≤ c.toNat) (count : Nat) :
    Graphic (row c count) := by
  rw [row, Text.graphic_ofList]
  intro d hd
  rwa [List.eq_of_mem_replicate hd]

namespace Listing

/-- A text is a cell with spaces after it, up to a width. -/
def Fills (width : Nat) (cell text : String) : Prop :=
  text.length = width ∧ ∃ count, text = cell ++ Diagnostic.row ' ' count

def Shows (left right : Nat) (cells : String × String) (l : String) : Prop :=
  ∃ first second, Fills left cells.1 first ∧ Fills right cells.2 second ∧
    l = "| " ++ first ++ " | " ++ second ++ " |"

/-- How long the widest of some cells is. -/
def Widest (cells : List String) (n : Nat) : Prop :=
  IsGreatest {k | ∃ cell ∈ cells, cell.length = k} n

/-- Lines that are a heading of three lines, a line for each row, and a closing rule, all of one length,
with columns that are as wide as their widest cells. -/
structure Framed (left right : Nat) (heading : String × String) (rows : List (String × String))
    (ls : List String) : Prop where
  lines : ∃ title body, Shows left right heading title ∧ List.Forall₂ (Shows left right) rows body ∧
    ls = ["." ++ Diagnostic.row '-' (left + right + 5) ++ ".", title,
        "|" ++ Diagnostic.row '-' (left + 2) ++ "|" ++ Diagnostic.row '-' (right + 2) ++ "|"] ++
      body ++ ["'" ++ Diagnostic.row '-' (left + right + 5) ++ "'"]
  length : ∀ l ∈ ls, l.length = left + right + 7
  widestLeft : Widest ((heading :: rows).map (·.1)) left
  widestRight : Widest ((heading :: rows).map (·.2)) right

theorem widest_width (cells : List String) (h : cells ≠ []) : Widest cells (width cells) := by
  obtain ⟨n, hn⟩ : ∃ n, (cells.map String.length).max? = some n :=
    Option.ne_none_iff_exists'.mp fun hnone => h (by simpa using hnone)
  have hwidth : width cells = n := by
    rw [width, List.foldl_max, hn]
    simp
  obtain ⟨hmem, hle⟩ := List.max?_eq_some_iff.mp hn
  rw [hwidth]
  refine ⟨List.mem_map.mp hmem, ?_⟩
  rintro _ ⟨cell, hcell, rfl⟩
  exact hle _ (List.mem_map_of_mem hcell)

theorem fills_pad {w : Nat} {cell : String} (h : cell.length ≤ w) : Fills w cell (pad w cell) := by
  refine ⟨?_, w - cell.length, rfl⟩
  rw [pad, String.length_append, Diagnostic.length_row]
  omega

theorem shows_line {left right : Nat} {cells : String × String} (hl : cells.1.length ≤ left)
    (hr : cells.2.length ≤ right) : Shows left right cells (line left right cells) :=
  ⟨_, _, fills_pad hl, fills_pad hr, rfl⟩

theorem Shows.length {left right : Nat} {cells : String × String} {l : String}
    (h : Shows left right cells l) : l.length = left + right + 7 := by
  obtain ⟨first, second, ⟨hfirst, -⟩, ⟨hsecond, -⟩, rfl⟩ := h
  have hends : "| ".length = 2 ∧ " | ".length = 3 ∧ " |".length = 2 := by decide
  simp only [String.length_append, hfirst, hsecond, hends]
  omega

theorem framed_lines (heading : String × String) (rows : List (String × String)) :
    Framed (width ((heading :: rows).map (·.1))) (width ((heading :: rows).map (·.2))) heading rows
      (lines heading rows) := by
  have hleft := widest_width ((heading :: rows).map (·.1)) (by simp)
  have hright := widest_width ((heading :: rows).map (·.2)) (by simp)
  rw [lines]
  generalize width ((heading :: rows).map (·.1)) = left at hleft ⊢
  generalize width ((heading :: rows).map (·.2)) = right at hright ⊢
  have hshows : ∀ cells ∈ heading :: rows, Shows left right cells (line left right cells) :=
    fun cells hcells => shows_line (hleft.2 ⟨_, List.mem_map_of_mem hcells, rfl⟩)
      (hright.2 ⟨_, List.mem_map_of_mem hcells, rfl⟩)
  obtain ⟨htitle, hbody⟩ := List.forall_mem_cons.mp hshows
  have hrows : List.Forall₂ (Shows left right) rows (rows.map (line left right)) := by
    rw [List.forall₂_map_right_iff, List.forall₂_same]
    exact hbody
  refine ⟨⟨_, _, htitle, hrows, rfl⟩, ?_, hleft, hright⟩
  have hcorners : ".".length = 1 ∧ "|".length = 1 ∧ "'".length = 1 := by decide
  simp only [List.forall_mem_append, List.forall_mem_cons, List.forall_mem_map, List.not_mem_nil,
    IsEmpty.forall_iff, implies_true, and_true, String.length_append, Diagnostic.length_row, hcorners]
  refine ⟨⟨⟨by omega, htitle.length, by omega⟩, fun cells hcells => (hbody cells hcells).length⟩,
    by omega⟩

theorem graphic_line (left right : Nat) {cells : String × String} (hl : Graphic cells.1)
    (hr : Graphic cells.2) : Graphic (line left right cells) := by
  have hfill : ∀ count, Graphic (Diagnostic.row ' ' count) := Diagnostic.graphic_row (by decide)
  simp only [line, pad, Text.graphic_append]
  exact ⟨⟨⟨⟨.literal rfl, hl, hfill _⟩, .literal rfl⟩, hr, hfill _⟩, .literal rfl⟩

variable {heading : String × String} {rows : List (String × String)}

/-- Cells without control characters make lines without them. -/
theorem graphic_lines (h : ∀ cells ∈ heading :: rows, Graphic cells.1 ∧ Graphic cells.2) :
    ∀ l ∈ lines heading rows, Graphic l := by
  have hrule : ∀ count, Graphic (Diagnostic.row '-' count) := Diagnostic.graphic_row (by decide)
  have hline : ∀ left right, ∀ cells ∈ heading :: rows, Graphic (line left right cells) :=
    fun left right cells hcells => graphic_line left right (h cells hcells).1 (h cells hcells).2
  obtain ⟨htitle, hbody⟩ := List.forall_mem_cons.mp (hline _ _)
  simp only [lines, List.forall_mem_append, List.forall_mem_cons, List.forall_mem_map,
    List.not_mem_nil, IsEmpty.forall_iff, implies_true, and_true, Text.graphic_append]
  exact ⟨⟨⟨⟨⟨.literal rfl, hrule _⟩, .literal rfl⟩, htitle,
    ⟨⟨⟨.literal rfl, hrule _⟩, .literal rfl⟩, hrule _⟩, .literal rfl⟩, hbody⟩,
    ⟨.literal rfl, hrule _⟩, .literal rfl⟩

/-- A listing is put together from its lines, and with a line feed after it is cut into these again. -/
theorem cut_text (h : ∀ cells ∈ heading :: rows, Graphic cells.1 ∧ Graphic cells.2) :
    Text.cut (text heading rows ++ "\n") = lines heading rows ++ [""] := by
  have hne : lines heading rows ≠ [] := by simp [lines]
  have htext : text heading rows ++ "\n" = "\n".intercalate (lines heading rows ++ [""]) := by
    rw [String.intercalate_append_of_ne_nil hne (by simp), String.intercalate_singleton,
      String.append_empty, text]
  have hlines : ∀ l ∈ lines heading rows ++ [""], OneLine l :=
    List.forall_mem_append.mpr
      ⟨fun l hl => (graphic_lines h l hl).oneLine, by simp [OneLine]⟩
  rw [htext, Text.cut_intercalate hlines (by simp)]

end Listing

end Reckoner
