import Mathlib
import Reckoner.Paint
import Reckoner.Proofs.Text.Graphic
import Reckoner.Text.Blank

/-! # Text without its colours

A colour sequence is `ESC [`, anything up to the next `m`, and that `m`.  Rendered with colours and
then stripped of the colour sequences, pieces give the text that they give without colours, as long
as no piece has an escape character of its own.
-/
namespace Reckoner

namespace Text

def escape : Char := '\x1b'

/-- Characters without colour sequences, where `held` holds the characters of a sequence that no
`m` has ended yet, latest first.  A sequence that is never ended stays. -/
def stripFrom : Option (List Char) → List Char → List Char
  | none, [] => []
  | none, '\x1b' :: '[' :: cs => stripFrom (some ['[', '\x1b']) cs
  | none, c :: cs => c :: stripFrom none cs
  | some held, [] => held.reverse
  | some _, 'm' :: cs => stripFrom none cs
  | some held, c :: cs => stripFrom (some (c :: held)) cs

def strip (s : String) : String :=
  String.ofList (stripFrom none s.toList)

def EscapeFree (s : String) : Prop :=
  escape ∉ s.toList

@[simp] theorem escapeFree_append {s t : String} :
    EscapeFree (s ++ t) ↔ EscapeFree s ∧ EscapeFree t := by
  simp only [EscapeFree, String.toList_append, List.mem_append, not_or]

@[simp] theorem escapeFree_ofList {cs : List Char} :
    EscapeFree (String.ofList cs) ↔ escape ∉ cs := by
  simp only [EscapeFree, String.toList_ofList]

/-- The escape character is a control character. -/
theorem Graphic.escapeFree {s : String} (h : Graphic s) : EscapeFree s :=
  fun hc => absurd (h escape hc) (by decide)

theorem EscapeFree.literal {cs : List Char} (h : cs.all (· != escape) = true) :
    EscapeFree (String.ofList cs) :=
  escapeFree_ofList.mpr fun hc => by simpa using List.all_eq_true.mp h escape hc

theorem EscapeFree.intercalate {s : String} {ts : List String} (hs : EscapeFree s)
    (hts : ∀ t ∈ ts, EscapeFree t) : EscapeFree (s.intercalate ts) := by
  induction ts with
  | nil => exact .literal rfl
  | cons t ts ih =>
    obtain ⟨ht, hrest⟩ := List.forall_mem_cons.mp hts
    cases ts with
    | nil => simpa using ht
    | cons u ts =>
      rw [String.intercalate_cons_cons]
      exact escapeFree_append.mpr ⟨escapeFree_append.mpr ⟨ht, hs⟩, ih hrest⟩

theorem EscapeFree.join {ts : List String} (hts : ∀ t ∈ ts, EscapeFree t) :
    EscapeFree (String.join ts) := by
  rw [EscapeFree, String.toList_join, List.mem_flatMap]
  rintro ⟨t, ht, hc⟩
  exact hts t ht hc

theorem EscapeFree.trimEnd {s : String} (h : EscapeFree s) (drop : Char → Bool) :
    EscapeFree (trimEnd drop s) := by
  rw [Text.trimEnd, escapeFree_ofList, List.mem_reverse]
  exact fun hc => h (List.mem_reverse.mp ((List.dropWhile_sublist drop).subset hc))

theorem stripFrom_cons {c : Char} (h : c ≠ escape) (cs : List Char) :
    stripFrom none (c :: cs) = c :: stripFrom none cs := by
  rw [stripFrom]
  rintro _ rfl
  exact absurd rfl h

theorem stripFrom_append {cs : List Char} (h : escape ∉ cs) (rest : List Char) :
    stripFrom none (cs ++ rest) = cs ++ stripFrom none rest := by
  induction cs with
  | nil => rfl
  | cons c cs ih =>
    rw [List.mem_cons, not_or] at h
    rw [List.cons_append, stripFrom_cons (Ne.symm h.1), ih h.2, List.cons_append]

/-- A text without escape characters is left as it is. -/
theorem strip_eq_self {s : String} (h : EscapeFree s) : strip s = s := by
  have hchars : stripFrom none s.toList = s.toList := by
    simpa [stripFrom] using stripFrom_append h []
  rw [strip, hchars, String.ofList_toList]

end Text

open Text (EscapeFree stripFrom)

theorem Style.stripFrom_on (s : Style) (rest : List Char) :
    stripFrom none (s.on.toList ++ rest) = stripFrom none rest := by
  cases s <;> rfl

theorem Style.stripFrom_off (rest : List Char) :
    stripFrom none (Style.off.toList ++ rest) = stripFrom none rest :=
  rfl

theorem Piece.stripFrom_render {p : Piece} (h : EscapeFree p.text) (rest : List Char) :
    stripFrom none ((p.render true).toList ++ rest) =
      (p.render false).toList ++ stripFrom none rest := by
  obtain ⟨style, text⟩ := p
  cases style with
  | none => exact Text.stripFrom_append h rest
  | some style =>
    simp only [render, String.toList_append, List.append_assoc]
    rw [Style.stripFrom_on, Text.stripFrom_append h, Style.stripFrom_off]

namespace Painted

def EscapeFree (ps : Painted) : Prop :=
  ∀ p ∈ ps, Text.EscapeFree p.text

@[simp] theorem escapeFree_append {ps qs : Painted} :
    EscapeFree (ps ++ qs) ↔ ps.EscapeFree ∧ qs.EscapeFree :=
  List.forall_mem_append

theorem toList_render (colors : Bool) (ps : Painted) :
    (render colors ps).toList = ps.flatMap fun p => (p.render colors).toList := by
  rw [render, String.toList_join, List.flatMap_map]

/-- The plain text is what is left of the coloured one without its colour sequences. -/
theorem strip_render {ps : Painted} (h : ps.EscapeFree) :
    Text.strip (ps.render true) = ps.render false := by
  have hchars : ∀ qs : Painted, qs.EscapeFree →
      stripFrom none (qs.flatMap fun p => (p.render true).toList) =
        qs.flatMap fun p => (p.render false).toList := by
    intro qs hqs
    induction qs with
    | nil => rfl
    | cons p qs ih =>
      obtain ⟨hp, hrest⟩ := List.forall_mem_cons.mp hqs
      rw [List.flatMap_cons, List.flatMap_cons, Piece.stripFrom_render hp, ih hrest]
  rw [Text.strip, toList_render, hchars ps h, ← toList_render, String.ofList_toList]

end Painted

end Reckoner
