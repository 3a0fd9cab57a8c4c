import Mathlib
import Reckoner.CommandLine.Basic
import Reckoner.Proofs.Diagnostic.Messages
import Reckoner.Proofs.Expr.Outline
import Reckoner.Proofs.Session.Reachable
import Reckoner.Proofs.Text.Columns
import Reckoner.Proofs.Text.Escapes

/-! # Colours in transcripts

What a session shows has no escape characters in it but those of its colours, as long as its lines
have none: the texts it is made of are characters of the line, numbers, and names that can be written
in a line.  So the coloured transcript is the plain one with colour sequences added.
-/
namespace Reckoner

open Text (Graphic EscapeFree)

theorem Diagnostic.escapeFree_row {c : Char} (h : c ≠ Text.escape) (count : Nat) :
    EscapeFree (row c count) := by
  rw [row, Text.escapeFree_ofList]
  exact fun hc => h (List.eq_of_mem_replicate hc).symm

section Reports

structure Diagnostic.EscapeFree (d : Diagnostic) : Prop where
  message : Text.EscapeFree d.message
  source : ∀ source ∈ d.source, Text.EscapeFree source.1
  notes : ∀ note ∈ d.notes, Text.EscapeFree note
  suggestions : ∀ suggestion ∈ d.suggestions, Text.EscapeFree suggestion

theorem Painted.escapeFree_cons {p : Piece} {ps : Painted} :
    Painted.EscapeFree (p :: ps) ↔ Text.EscapeFree p.text ∧ ps.EscapeFree :=
  List.forall_mem_cons

theorem Painted.escapeFree_nil : Painted.EscapeFree [] :=
  fun _ h => absurd h List.not_mem_nil

theorem Diagnostic.escapeFree_snippet {line : String} (h : Text.EscapeFree line) (span : Span) :
    (snippet line span).EscapeFree := by
  simp only [snippet, Painted.escapeFree_cons, Piece.styled, Piece.plain, Text.escapeFree_append]
  exact ⟨.literal rfl, ⟨h, .literal rfl⟩, .literal rfl, escapeFree_row (by decide) _,
    escapeFree_row (by decide) _, .literal rfl, Painted.escapeFree_nil⟩

theorem Diagnostic.escapeFree_remarks (style : Style) {kind : String} (hkind : Text.EscapeFree kind)
    {texts : List String} (h : ∀ text ∈ texts, Text.EscapeFree text) :
    Painted.EscapeFree (texts.flatMap (remark style kind)) := by
  intro p hp
  obtain ⟨text, htext, hp⟩ := List.mem_flatMap.mp hp
  have hremark : Painted.EscapeFree (remark style kind text) := by
    simp only [remark, Painted.escapeFree_cons, Piece.styled, Piece.plain, Text.escapeFree_append]
    exact ⟨.literal rfl, hkind, ⟨⟨.literal rfl, h text htext⟩, .literal rfl⟩,
      Painted.escapeFree_nil⟩
  exact hremark p hp

theorem Diagnostic.EscapeFree.report {d : Diagnostic} (h : d.EscapeFree) :
    d.report.EscapeFree := by
  have hsource : Painted.EscapeFree (d.source.elim [] fun source => snippet source.1 source.2) := by
    cases hd : d.source with
    | none => exact Painted.escapeFree_nil
    | some source => exact escapeFree_snippet (h.source source hd) source.2
  simp only [Diagnostic.report, Painted.escapeFree_append, Painted.escapeFree_cons, Piece.styled,
    Piece.plain, Text.escapeFree_append]
  refine ⟨⟨⟨⟨?_, ⟨⟨.literal rfl, d.code.graphic_text.escapeFree⟩, .literal rfl⟩,
    ⟨⟨.literal rfl, h.message⟩, .literal rfl⟩, Painted.escapeFree_nil⟩, hsource⟩,
    escapeFree_remarks _ (.literal rfl) h.notes⟩, escapeFree_remarks _ (.literal rfl) h.suggestions⟩
  cases d.severity <;> exact .literal rfl

end Reports

namespace Prelude

theorem graphic_hostFunctions : ∀ h ∈ hostFunctions, Graphic h.1 ∧ ∀ n ∈ h.2.1, Graphic n := by
  simp only [hostFunctions, List.forall_mem_cons, List.not_mem_nil, IsEmpty.forall_iff,
    implies_true, and_true]
  repeat' apply And.intro
  all_goals exact .literal rfl

theorem named_sum : sum.Named Graphic := by
  have ha : Graphic "a" := .literal rfl
  have hb : Graphic "b" := .literal rfl
  refine .function 0 ?_ (.binary .add (.symbol ha) (.symbol hb))
  simpa [numeric] using ⟨ha, hb⟩

end Prelude

namespace Session

variable {t : Table} {e : Expr} {limit : Nat}

theorem escapeFree_showText {text : String} (h : EscapeFree text) : (showText text).EscapeFree :=
  Painted.escapeFree_cons.mpr ⟨h, Painted.escapeFree_cons.mpr ⟨.literal rfl, Painted.escapeFree_nil⟩⟩

theorem named_ofTable (ht : t.Named Graphic) : (Scope.ofTable t).Named Graphic := by
  intro f hf
  rw [List.mem_singleton.mp hf]
  exact ht

theorem escapeFree_showValue (ht : t.Named Graphic) (he : e.Named Graphic) :
    (showValue limit t e).EscapeFree := by
  unfold showValue
  split
  · exact escapeFree_showText (Value.graphic_describe _).escapeFree
  · rename_i err herr
    obtain ⟨hcause, hbacktrace⟩ := Eval.named_of_eval_error (named_ofTable ht) he herr
    refine Diagnostic.EscapeFree.report ⟨?_, ?_, ?_, ?_⟩
    · exact (EvalError.Cause.Named.graphic_message hcause).escapeFree
    · rintro _ ⟨⟩
    · exact fun note hnote => (EvalError.graphic_notes hbacktrace note hnote).escapeFree
    · rintro _ ⟨⟩
  · exact Painted.escapeFree_nil

theorem graphic_describeBinding (ht : t.Named Graphic) (he : e.Named Graphic) :
    Graphic (describeBinding limit t e) := by
  unfold describeBinding describeOutcome
  split
  · exact Value.graphic_describe _
  · rename_i err herr
    obtain ⟨hcause, -⟩ := Eval.named_of_eval_error (named_ofTable ht) he herr
    exact Text.graphic_append.mpr
      ⟨.literal rfl, EvalError.Cause.Named.graphic_message hcause⟩
  · exact .literal rfl

/-- The cells of a listing, with those of its heading. -/
theorem graphic_cells (ht : t.Named Graphic) :
    ∀ cells ∈ ("Ident", "Expression") ::
      t.entries.map (fun (name, e) => (name, describeBinding limit t e)),
      Graphic cells.1 ∧ Graphic cells.2 := by
  simp only [List.forall_mem_cons, List.forall_mem_map]
  refine ⟨⟨.literal rfl, .literal rfl⟩, fun b hb => ?_⟩
  obtain ⟨hn, he⟩ := ht b hb
  exact ⟨hn, graphic_describeBinding ht he⟩

theorem escapeFree_listing (ht : t.Named Graphic) : EscapeFree (listing limit t) :=
  .intercalate (.literal rfl) fun l hl => (Listing.graphic_lines (graphic_cells ht) l hl).escapeFree

/-- What is known of a line that has been prepared: its names have no control characters, and a
rejection keeps the line. -/
def Prepared (line : String) : Except Rejection Command → Prop
  | .error r => r.Graphic ∧ r.line = line
  | .ok c => (∀ e, c.expr? = some e → e.Named Graphic) ∧
      ∀ n e, c.binding? = some (n, e) → Graphic n

theorem named_expandSelf {P : String → Prop} (ht : t.Named P) (name : String) (he : e.Named P) :
    (expandSelf t name e).Named P := by
  simp only [expandSelf]
  split
  · split
    · rename_i previous hprevious
      exact (ht.get? hprevious).2.substitute he
    · exact he
  · exact he

theorem prepared (limit : Nat) (ht : t.Named Graphic) (line : String) :
    Prepared line (prepare limit t line) := by
  unfold prepare
  split
  · rename_i err herr
    exact ⟨ParseError.graphic_of_parse_error herr, rfl⟩
  · rename_i c hparse
    obtain ⟨hexpr, hbound⟩ := Command.named_of_parse hparse
    split
    · exact ⟨hexpr, hbound⟩
    · rename_i name e hb
      have he := named_expandSelf ht name (hexpr e (Command.expr?_of_binding? hb))
      dsimp only
      split
      · rename_i err herr
        have herr := Typing.named_of_checkWithin_error (named_ofTable ht) he herr
        exact ⟨⟨herr.graphic_message, herr.graphic_suggestions⟩, rfl⟩
      · refine ⟨fun e' he' => ?_, fun n e' hb' => ?_⟩
        · rw [Command.expr?_of_binding? (Command.binding?_withExpr _ hb)] at he'
          cases he'
          exact he
        · rw [Command.binding?_withExpr _ hb] at hb'
          cases hb'
          exact hbound name e hb

theorem named_accept {s : Session} {line : String} {outcome : Except Rejection Command}
    (hs : s.table.Named Graphic) (h : Prepared line outcome) :
    (s.accept outcome).table.Named Graphic := by
  cases outcome with
  | error r => exact hs
  | ok c =>
    simp only [accept, bind]
    split
    · rename_i n e hb
      exact hs.insert (h.2 n e hb) (h.1 e (Command.expr?_of_binding? hb))
    · exact hs

theorem escapeFree_showOutcome (ht : t.Named Graphic) {line : String} (hline : EscapeFree line)
    {outcome : Except Rejection Command} (h : Prepared line outcome) :
    (showOutcome limit t outcome).EscapeFree := by
  cases outcome with
  | error r =>
    obtain ⟨⟨hmessage, hhints⟩, rfl⟩ := h
    simp only [showOutcome, showRejection]
    split
    · refine Painted.escapeFree_cons.mpr ⟨?_, Painted.escapeFree_nil⟩
      simp only [Piece.plain, Text.escapeFree_append]
      exact ⟨⟨.literal rfl, hmessage.escapeFree⟩, .literal rfl⟩
    · refine Diagnostic.EscapeFree.report ⟨hmessage.escapeFree, fun source hsource => ?_,
        fun _ hn => absurd hn List.not_mem_nil, fun hint hh => (hhints hint hh).escapeFree⟩
      obtain ⟨offset, -, rfl⟩ := Option.map_eq_some_iff.mp hsource
      exact hline
  | ok c =>
    cases c with
    | exit => exact Painted.escapeFree_nil
    | explain e =>
      have htree : EscapeFree e.tree := (h.1 e rfl).outline.escapeFree_text
      exact escapeFree_showText (htree.trimEnd _)
    | expression e => exact escapeFree_showValue ht (h.1 e rfl)
    | define n e => exact escapeFree_showValue ht (h.1 e rfl)
    | symbols => exact escapeFree_showText (escapeFree_listing ht)

/-- A line without escape characters shows none, and leaves a table of names without control
characters. -/
theorem escapeFree_step (limits : Limits) {s : Session} (hs : s.table.Named Graphic) {line : String}
    (hline : EscapeFree line) :
    (step limits s line).1.table.Named Graphic ∧ (step limits s line).2.1.EscapeFree := by
  unfold step
  split
  · exact ⟨hs, Painted.escapeFree_nil⟩
  · have h := prepared limits.checking hs line
    exact ⟨named_accept hs h, escapeFree_showOutcome (named_accept hs h) hline h⟩

theorem escapeFree_run (limits : Limits) {s : Session} (hs : s.table.Named Graphic)
    {lines : List String} (hlines : ∀ line ∈ lines, EscapeFree line) :
    (run limits s lines).2.EscapeFree := by
  induction lines generalizing s with
  | nil => exact Painted.escapeFree_nil
  | cons line lines ih =>
    obtain ⟨hline, hlines⟩ := List.forall_mem_cons.mp hlines
    obtain ⟨htable, hshown⟩ := escapeFree_step limits hs hline
    rw [run]
    split
    · rename_i heq
      rw [heq] at hshown
      exact hshown
    · rename_i heq
      rw [heq] at htable hshown
      exact Painted.escapeFree_append.mpr ⟨hshown, ih htable hlines⟩

/-- The names of a fresh session have no control characters. -/
theorem named_fresh : fresh.table.Named Graphic := by
  refine Table.Named.insertAll (Table.Named.insert ?_ Token.graphic_lastResult (.number 0.0))
    fun b hb => ?_
  · exact fun _ hb => absurd hb List.not_mem_nil
  · rcases List.mem_cons.mp hb with rfl | hb
    · exact ⟨.literal rfl, Prelude.named_sum⟩
    · obtain ⟨⟨name, params, f⟩, hmem, rfl⟩ := List.mem_map.mp hb
      obtain ⟨hname, hparams⟩ := Prelude.graphic_hostFunctions _ hmem
      refine ⟨hname, .function 0 (fun p hp => ?_) (.native hname fun n hn => ?_)⟩
      · obtain ⟨n, hn, rfl⟩ := List.mem_map.mp hp
        exact hparams n hn
      · rw [List.map_map] at hn
        obtain ⟨m, hm, rfl⟩ := List.mem_map.mp hn
        exact hparams m hm

end Session

namespace CommandLine

theorem escapeFree_converse (limits : Limits) {s : Session} (hs : s.table.Named Graphic)
    {input : List (Except ReadError String)} (hinput : ∀ line, .ok line ∈ input → EscapeFree line) :
    (converse limits s input).1.EscapeFree := by
  have hprompt : prompt.EscapeFree :=
    Painted.escapeFree_cons.mpr ⟨.literal rfl, Painted.escapeFree_nil⟩
  induction input generalizing s with
  | nil => exact hprompt
  | cons item input ih =>
    cases item with
    | error e => exact hprompt
    | ok line =>
      have hline := (hinput line List.mem_cons_self).trimEnd Text.isLineEnd
      obtain ⟨htable, hshown⟩ := Session.escapeFree_step limits hs hline
      rw [converse, converseStep]
      split
      · rename_i heq
        rw [heq] at hshown
        exact Painted.escapeFree_append.mpr ⟨hprompt, hshown⟩
      · rename_i heq
        rw [heq] at htable hshown
        have hrest := ih htable fun line hmem => hinput line (List.mem_cons_of_mem _ hmem)
        exact Painted.escapeFree_append.mpr
          ⟨Painted.escapeFree_append.mpr ⟨hprompt, hshown⟩, hrest⟩

end CommandLine

/-- What a fresh session writes for some lines. -/
def Session.transcript (limits : Limits) (colors : Bool) (lines : List String) : String :=
  (run limits fresh lines).2.render colors

/-- What is written for some diagnostics. -/
def Diagnostic.emit (colors : Bool) (ds : List Diagnostic) : String :=
  Painted.render colors (ds.flatMap report)

/-- Colours are only decoration.  Where no line has an escape character in it, the coloured transcript
of a session without its colour sequences is the plain transcript, and so it is when the lines are read
from the console, with a prompt before each of them.  The same holds of diagnostics. -/
theorem Session.strip_transcript (limits : Limits) {lines : List String}
    (hlines : ∀ line ∈ lines, EscapeFree line) {input : List (Except CommandLine.ReadError String)}
    (hinput : ∀ line, .ok line ∈ input → EscapeFree line) {ds : List Diagnostic}
    (hds : ∀ d ∈ ds, d.EscapeFree) :
    Text.strip (transcript limits true lines) = transcript limits false lines ∧
      Text.strip ((CommandLine.converse limits fresh input).1.render true) =
        (CommandLine.converse limits fresh input).1.render false ∧
      Text.strip (Diagnostic.emit true ds) = Diagnostic.emit false ds := by
  refine ⟨Painted.strip_render (escapeFree_run limits named_fresh hlines),
    Painted.strip_render (CommandLine.escapeFree_converse limits named_fresh hinput),
    Painted.strip_render fun p hp => ?_⟩
  obtain ⟨d, hd, hp⟩ := List.mem_flatMap.mp hp
  exact (hds d hd).report p hp

def Diagnostic.strayClosing : Diagnostic :=
  ⟨.trailingInput, .warning, "unexpected `)`", some ("a )", ⟨2, 3⟩), [], ["leave it out"]⟩

/-- A value and a warning are coloured, and plain again without the colour sequences. -/
theorem Session.strip_transcript_warning :
    transcript (.both 8) true ["true"] = "\x1b[33mBoolean: true\x1b[0m\n" ∧
      Text.strip (transcript (.both 8) true ["true"]) = transcript (.both 8) false ["true"] ∧
      Diagnostic.emit true [.strayClosing] ≠ Diagnostic.emit false [.strayClosing] ∧
      Text.strip (Diagnostic.emit true [.strayClosing]) =
        Diagnostic.emit false [.strayClosing] := by
  have hwarning : Diagnostic.EscapeFree .strayClosing :=
    ⟨.literal rfl, by simpa [Diagnostic.strayClosing] using .literal rfl,
      by simp [Diagnostic.strayClosing], by simpa [Diagnostic.strayClosing] using .literal rfl⟩
  have htrue : ∀ line ∈ ["true"], EscapeFree line := by simpa using .literal rfl
  have hinput : ∀ line, .ok line ∈ [(.ok "true" : Except CommandLine.ReadError String)] →
      EscapeFree line := by
    simpa using .literal rfl
  have hwarnings : ∀ d ∈ [Diagnostic.strayClosing], d.EscapeFree := by simpa using hwarning
  obtain ⟨hlines, -, hds⟩ := strip_transcript (.both 8) htrue hinput hwarnings
  exact ⟨by decide +kernel, hlines, by decide +kernel, hds⟩

end Reckoner
