import Mathlib
import Reckoner.Expr.Outline
import Reckoner.Proofs.Expr.Names
import Reckoner.Proofs.Text.Escapes
import Reckoner.Proofs.Text.Lines

/-! # Outlines and the texts they are drawn as

A row starts with its margin, and the connector behind the margin tells whether it is the last of its
siblings.  What stands below a row that is not the last is drawn behind a line that passes the margin,
which the next sibling's row interrupts.  So the drawn lines determine the outline, and the text of an
outline does if no label has a line feed in it.
-/
namespace Reckoner

open Text (Graphic EscapeFree OneLine)

/-- Two ways to cut a list where a property of its members ends are the same. -/
theorem append_inj_of_head {α : Type} {p : α → Bool} {front front' rest rest' : List α}
    (hfront : front.all p = true) (hfront' : front'.all p = true)
    (hrest : ∀ a ∈ rest.head?, p a = false) (hrest' : ∀ a ∈ rest'.head?, p a = false)
    (h : front ++ rest = front' ++ rest') : front = front' ∧ rest = rest' := by
  have htake : front = front' := by
    rw [← Token.takeWhile_append_of_head hfront hrest, h,
      Token.takeWhile_append_of_head hfront' hrest']
  subst htake
  exact ⟨rfl, List.append_cancel_left h⟩

namespace Outline

section Labels

inductive All (P : String → Prop) : Outline → Prop where
  | node {label : String} {children : List Outline} (hlabel : P label)
      (hchildren : ∀ t ∈ children, All P t) : All P (.node label children)

theorem All.label {P : String → Prop} {t : Outline} (h : t.All P) : P t.label := by
  cases h with
  | node hlabel _ => exact hlabel

theorem rows_cons_cons (margin : String) (t u : Outline) (ts : List Outline) :
    rows margin (t :: u :: ts) = (margin ++ "├── " ++ t.label) ::
      (descendants (margin ++ "│   ") t ++ rows margin (u :: ts)) := by
  rw [rows]
  · rfl
  · simp

theorem graphic_rows {ts : List Outline} (hlabels : ∀ t ∈ ts, Graphic t.label)
    (hbelow : ∀ t ∈ ts, ∀ margin, Graphic margin → ∀ line ∈ descendants margin t, Graphic line)
    {margin : String} (hmargin : Graphic margin) : ∀ line ∈ rows margin ts, Graphic line := by
  induction ts with
  | nil => simp [rows]
  | cons t ts ih =>
    obtain ⟨hlabel, hlabels⟩ := List.forall_mem_cons.mp hlabels
    obtain ⟨ht, hbelow⟩ := List.forall_mem_cons.mp hbelow
    have hrow : ∀ connector, Graphic connector → Graphic (margin ++ connector ++ t.label) :=
      fun connector hc => by simp [hmargin, hc, hlabel]
    have hinner : ∀ gap, Graphic gap → ∀ line ∈ descendants (margin ++ gap) t, Graphic line :=
      fun gap hgap => ht _ (Text.graphic_append.mpr ⟨hmargin, hgap⟩)
    cases ts with
    | nil =>
      rw [rows, List.forall_mem_cons]
      exact ⟨hrow _ (.literal rfl), hinner _ (.literal rfl)⟩
    | cons u ts =>
      rw [rows_cons_cons, List.forall_mem_cons, List.forall_mem_append]
      exact ⟨hrow _ (.literal rfl), hinner _ (.literal rfl), ih hlabels hbelow⟩

theorem All.descendants {t : Outline} (h : t.All Graphic) :
    ∀ margin, Graphic margin → ∀ line ∈ t.descendants margin, Graphic line := by
  induction h with
  | node _ hchildren ih =>
    intro margin hmargin
    rw [Outline.descendants]
    exact graphic_rows (fun t ht => (hchildren t ht).label) ih hmargin

/-- The lines of an outline have no control characters in them if its labels have none. -/
theorem All.lines {t : Outline} (h : t.All Graphic) :
    ∀ line ∈ t.label :: t.descendants "", Graphic line :=
  List.forall_mem_cons.mpr ⟨h.label, h.descendants "" (.literal rfl)⟩

theorem All.escapeFree_text {t : Outline} (h : t.All Graphic) : EscapeFree t.text := by
  refine .join fun line hline => ?_
  obtain ⟨row, hrow, rfl⟩ := List.mem_map.mp hline
  exact Text.escapeFree_append.mpr ⟨(h.lines row hrow).escapeFree, .literal rfl⟩

end Labels

section Drawing

/-- Whether the line that joins siblings passes a row behind its margin. -/
def passes (margin row : String) : Bool :=
  row.toList[margin.toList.length]? == some '│'

theorem passes_append (margin s : String) :
    passes margin (margin ++ s) = (s.toList.head? == some '│') := by
  rw [passes, String.toList_append, List.getElem?_append_right (Nat.le_refl _), Nat.sub_self,
    List.head?_eq_getElem?]

mutual

theorem margin_descendants : ∀ (margin : String) (t : Outline),
    ∀ row ∈ descendants margin t, ∃ s, row = margin ++ s
  | margin, node _ children => by
    rw [descendants]
    exact margin_rows margin children

theorem margin_rows : ∀ (margin : String) (ts : List Outline),
    ∀ row ∈ rows margin ts, ∃ s, row = margin ++ s
  | _, [] => by simp [rows]
  | margin, [t] => by
    rw [rows, List.forall_mem_cons]
    refine ⟨⟨_, String.append_assoc⟩, fun row hrow => ?_⟩
    obtain ⟨s, rfl⟩ := margin_descendants _ t row hrow
    exact ⟨_, String.append_assoc⟩
  | margin, t :: u :: ts => by
    rw [rows_cons_cons, List.forall_mem_cons, List.forall_mem_append]
    refine ⟨⟨_, String.append_assoc⟩, fun row hrow => ?_, margin_rows margin (u :: ts)⟩
    obtain ⟨s, rfl⟩ := margin_descendants _ t row hrow
    exact ⟨_, String.append_assoc⟩

end

/-- What is below a row that is not the last of its siblings is passed by the line to the next one. -/
theorem passes_descendants (margin : String) (t : Outline) :
    (descendants (margin ++ "│   ") t).all (passes margin) = true := by
  rw [List.all_eq_true]
  intro row hrow
  obtain ⟨s, rfl⟩ := margin_descendants _ t row hrow
  rw [String.append_assoc, passes_append]
  simp

theorem not_passes_head (margin : String) (ts : List Outline) :
    ∀ row ∈ (rows margin ts).head?, passes margin row = false := by
  match ts with
  | [] => simp [rows]
  | [t] =>
    rw [rows]
    rintro row ⟨⟩
    rw [String.append_assoc, passes_append]
    simp
  | t :: u :: ts =>
    rw [rows_cons_cons]
    rintro row ⟨⟩
    rw [String.append_assoc, passes_append]
    simp

theorem label_eq_of_row_eq {margin connector : String} {t u : Outline}
    (h : margin ++ connector ++ t.label = margin ++ connector ++ u.label) : t.label = u.label :=
  String.append_right_inj _ |>.mp h

mutual

/-- An outline is determined by its label and the rows below. -/
theorem eq_of_descendants : ∀ {margin : String} {t u : Outline}, t.label = u.label →
    descendants margin t = descendants margin u → t = u
  | margin, node l ts, node l' us, hlabel, h => by
    rw [descendants, descendants] at h
    rw [eq_of_rows h, show l = l' from hlabel]

theorem eq_of_rows : ∀ {margin : String} {ts us : List Outline},
    rows margin ts = rows margin us → ts = us
  | margin, [], [], _ => rfl
  | margin, [], [u], h => by simp [rows] at h
  | margin, [], u :: v :: us, h => by simp [rows] at h
  | margin, [t], [], h => by simp [rows] at h
  | margin, [t], [u], h => by
    simp only [rows, List.cons.injEq] at h
    rw [eq_of_descendants (label_eq_of_row_eq h.1) h.2]
  | margin, [t], u :: v :: us, h => by
    simp [rows, ← String.toList_inj] at h
  | margin, t :: w :: ts, [], h => by simp [rows] at h
  | margin, t :: w :: ts, [u], h => by
    simp [rows, ← String.toList_inj] at h
  | margin, t :: w :: ts, u :: v :: us, h => by
    rw [rows_cons_cons, rows_cons_cons, List.cons.injEq] at h
    obtain ⟨hbelow, hothers⟩ := append_inj_of_head (passes_descendants margin t)
      (passes_descendants margin u) (not_passes_head margin (w :: ts))
      (not_passes_head margin (v :: us)) h.2
    rw [eq_of_descendants (label_eq_of_row_eq h.1) hbelow, eq_of_rows hothers]

end

/-- The text of an outline determines it, if no label has a control character in it. -/
theorem eq_of_text_eq {t u : Outline} (ht : t.All Graphic) (hu : u.All Graphic)
    (h : t.text = u.text) : t = u := by
  have hcut := congrArg Text.cut h
  rw [text, text, Text.cut_join fun l hl => (ht.lines l hl).oneLine,
    Text.cut_join fun l hl => (hu.lines l hl).oneLine] at hcut
  obtain ⟨hlabel, hbelow⟩ := List.cons.inj (List.append_cancel_right hcut)
  exact eq_of_descendants hlabel hbelow

end Drawing

end Outline

namespace Expr

theorem Named.graphic_parameterLabel {p : Parameter} (h : Graphic p.name) :
    Graphic (parameterLabel p) := by
  simp only [parameterLabel, Parameter.text, Text.graphic_append]
  exact ⟨⟨.literal rfl, ⟨h, .literal rfl⟩, p.ty.graphic_caption⟩, .literal rfl⟩

theorem outlines_eq_map (es : List Expr) : outlines es = es.map outline := by
  induction es with
  | nil => rfl
  | cons e es ih => rw [outlines, ih, List.map_cons]

theorem Named.outline {e : Expr} (h : e.Named Graphic) : e.outline.All Graphic := by
  induction h with
  | number x =>
    refine .node ?_ (by simp)
    simp only [label, Text.graphic_append]
    exact ⟨⟨.literal rfl, Numeral.graphic_text x⟩, .literal rfl⟩
  | boolean b =>
    refine .node ?_ (by simp)
    simp only [label, Text.graphic_append]
    exact ⟨⟨.literal rfl, graphic_booleanText b⟩, .literal rfl⟩
  | symbol h =>
    refine .node ?_ (by simp)
    simp only [label, Text.graphic_append]
    exact ⟨⟨.literal rfl, h⟩, .literal rfl⟩
  | binary op _ _ ihl ihr =>
    rw [Expr.outline]
    refine .node (by cases op <;> exact .literal rfl) ?_
    simpa using ⟨ihl, ihr⟩
  | parameter h => exact .node (graphic_parameterLabel h) (by simp)
  | function m hps _ ih =>
    rw [Expr.outline]
    refine .node (.literal rfl) ?_
    rw [List.forall_mem_append]
    refine ⟨fun t ht => ?_, by simpa using ih⟩
    obtain ⟨p, hp, rfl⟩ := List.mem_map.mp ht
    exact .node (graphic_parameterLabel (hps p hp)) (by simp)
  | call hf _ ih =>
    rw [Expr.outline, outlines_eq_map]
    refine .node ?_ fun t ht => ?_
    · simp only [label, Text.graphic_append]
      exact ⟨⟨.literal rfl, hf⟩, .literal rfl⟩
    · obtain ⟨a, ha, rfl⟩ := List.mem_map.mp ht
      exact ih a ha
  | native hname hparams =>
    refine .node ?_ (by simp)
    simp only [label, Text.graphic_append]
    exact ⟨⟨.literal rfl, Ty.graphic_caption _⟩, .literal rfl⟩

end Expr

end Reckoner
