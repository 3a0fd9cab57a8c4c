import Mathlib
import Reckoner.Proofs.Grammar.Lookahead
import Reckoner.Proofs.Token.Partition
import Reckoner.Session.Console

/-! # Carets under the offending token

Offsets count bytes and columns count characters.  A token starts and ends between two characters of
its line, and there the column of an offset is the number of characters before it.  So the report of a
line that cannot be parsed has its carets under the characters of the offending token, and the console,
which is told the offset only, has one caret under the first of them.
-/
namespace Reckoner

open Token (byteLength)

theorem Painted.render_append (colors : Bool) (ps qs : Painted) :
    Painted.render colors (ps ++ qs) = Painted.render colors ps ++ Painted.render colors qs := by
  rw [render, List.map_append, String.join_append]
  rfl

namespace Diagnostic

/-! ### Reports without colours -/

/-- A line, and below it carets after some columns, both behind a gutter. -/
def underlined (line : String) (column carets : Nat) : String :=
  "  | " ++ line ++ "\n" ++ "  | " ++ row ' ' column ++ row '^' carets ++ "\n"

def remarkRow (kind text : String) : String :=
  "  = " ++ kind ++ ": " ++ text ++ "\n"

/-- The rows of a diagnostic after its line: the notes, and then what may help. -/
def remarkRows (d : Diagnostic) : String :=
  String.join (d.notes.map (remarkRow "note")) ++
    String.join (d.suggestions.map (remarkRow "help"))

theorem render_snippet (line : String) (span : Span) :
    Painted.render false (snippet line span) =
      underlined line (columnOf line.toList span.start) (caretCount line.toList span) := by
  rw [← String.toList_inj]
  simp [Painted.render, snippet, underlined, Piece.render, Piece.styled, Piece.plain]

theorem render_remarks (style : Style) (kind : String) (texts : List String) :
    Painted.render false (texts.flatMap (remark style kind)) =
      String.join (texts.map (remarkRow kind)) := by
  induction texts with
  | nil => rfl
  | cons text texts ih =>
    rw [List.flatMap_cons, Painted.render_append, ih, List.map_cons, String.join_cons]
    congr 1
    rw [← String.toList_inj]
    simp [Painted.render, remark, remarkRow, Piece.render, Piece.styled, Piece.plain]

theorem render_head (d : Diagnostic) :
    Painted.render false [.styled d.severity.style d.severity.text,
      .styled .strong ("[" ++ d.code.text ++ "]"), .plain (": " ++ d.message ++ "\n")] =
      d.headline ++ "\n" := by
  rw [← String.toList_inj]
  simp [Painted.render, headline, Piece.render, Piece.styled, Piece.plain]

/-- A report that shows a line has it below the headline, and any remarks below its carets. -/
theorem render_report {d : Diagnostic} {line : String} {span : Span}
    (h : d.source = some (line, span)) :
    Painted.render false d.report =
      d.headline ++ "\n" ++
        underlined line (columnOf line.toList span.start) (caretCount line.toList span) ++
        d.remarkRows := by
  rw [report, h, Option.elim_some, Painted.render_append, Painted.render_append,
    Painted.render_append, render_head, render_snippet, render_remarks, render_remarks, remarkRows,
    String.append_assoc]

/-! ### Columns -/

theorem columnOf_zero (cs : List Char) : columnOf cs 0 = 0 := by
  cases cs with
  | nil => rfl
  | cons c cs => rw [columnOf, if_neg (Nat.not_le.mpr c.utf8Size_pos)]

/-- Between two characters of a line, the column is the number of characters before. -/
theorem columnOf_byteLength (before after : List Char) :
    columnOf (before ++ after) (byteLength before) = before.length := by
  induction before with
  | nil => exact columnOf_zero after
  | cons c before ih =>
    rw [List.cons_append, columnOf, Token.byteLength_cons, if_pos (Nat.le_add_right _ _),
      Nat.add_sub_cancel_left, ih, List.length_cons]

/-- A span of some characters of a line has a caret for each of them, and one caret if there are
none. -/
theorem caretCount_byteLength (before text after : List Char) :
    caretCount (before ++ (text ++ after))
      ⟨byteLength before, byteLength before + byteLength text⟩ = max text.length 1 := by
  have hstop : columnOf (before ++ (text ++ after)) (byteLength before + byteLength text) =
      before.length + text.length := by
    rw [← List.append_assoc, ← Token.byteLength_append, columnOf_byteLength, List.length_append]
  rw [caretCount, hstop, columnOf_byteLength, Nat.add_sub_cancel_left]

theorem caretCount_point (line : List Char) (offset : Nat) :
    caretCount line (Span.point offset) = 1 := by
  rw [caretCount, Span.point, Nat.sub_self, Nat.zero_max]

end Diagnostic

/-! ### Where parsing a line fails -/

/-- Parsing a line fails after some of its characters, at a token of `width` characters or, counted as
one, at the end of the line.  The tokens before start some command; they and the token start none, unless
it closes a parenthesis that the last of them opens. -/
inductive FailsAt (line : String) (err : ParseError) : List Char → Nat → Prop where
  | token {front back : List Token} {t : Token} {before text after : List Char}
      (htokens : (TokenLine.ofString line).tokens = front ++ t :: back)
      (hline : line.toList = before ++ (text ++ after))
      (hspan : t.span = ⟨byteLength before, byteLength before + byteLength text⟩)
      (hstarts : Token.Starts (text ++ after) text t.kind)
      (hfound : err.found = some t.kind) (herr : err.span = t.span)
      (hviable : ∃ more, Grammar.Accepted (front ++ more))
      (hstop : Grammar.Open t front → ∀ more, ¬ Grammar.Accepted (front ++ t :: more)) :
      FailsAt line err before text.length
  | stop (hfound : err.found = none)
      (herr : err.span = ⟨byteLength line.toList, byteLength line.toList⟩)
      (hviable : ∃ more, Grammar.Accepted ((TokenLine.ofString line).tokens ++ more))
      (hstop : ¬ Grammar.Accepted (TokenLine.ofString line).tokens) :
      FailsAt line err line.toList 1

/-- A line that cannot be parsed fails at one of its tokens or at its end. -/
theorem exists_failsAt {line : String} {err : ParseError} (hsize : line.utf8ByteSize < 2 ^ 32)
    (h : Command.parse line = .error err) : ∃ before width, FailsAt line err before width := by
  have hparts := Token.partitions_ofString hsize
  unfold Command.parse Command.ofTokenLine at h
  cases hfail : Command.parseTokens (TokenLine.ofString line).tokens with
  | ok c =>
    rw [hfail] at h
    cases h
  | error failure =>
    rw [hfail] at h
    cases h
    obtain ⟨front, htokens, hviable⟩ := (Grammar.blames_of_parseTokens_error hfail).exists_accepted
    rw [ParseError.ofFailure_eq]
    cases hrest : failure.rest with
    | nil =>
      rw [hrest, List.append_nil] at htokens
      refine ⟨_, _, .stop rfl ?_ (htokens ▸ hviable) ?_⟩
      · rw [Token.byteLength_toList]
        exact hparts.stop
      · rintro ⟨c, hc⟩
        rw [hc] at hfail
        cases hfail
    | cons t back =>
      rw [hrest] at htokens
      have ht : t ∈ (TokenLine.ofString line).tokens := by simp [htokens]
      obtain ⟨before, text, after, hline, hspan, -, hstarts⟩ := hparts.covers t ht
      refine ⟨_, _, .token htokens hline hspan hstarts rfl rfl hviable fun hopen more => ?_⟩
      rw [htokens] at hfail
      exact Grammar.not_accepted_of_error hopen hfail hrest more

namespace FailsAt

variable {line : String} {err : ParseError} {before : List Char} {width : Nat}

theorem offset_le (h : FailsAt line err before width) : err.offset ≤ line.utf8ByteSize := by
  rw [ParseError.offset, ← Token.byteLength_toList]
  cases h with
  | token _ hline hspan _ _ herr =>
    rw [herr, hspan, hline, Token.byteLength_append]
    exact Nat.le_add_right _ _
  | stop _ herr =>
    rw [herr]

/-- The column of the error is the number of characters before the place where parsing fails. -/
theorem columnOf_start (h : FailsAt line err before width) :
    Diagnostic.columnOf line.toList err.span.start = before.length := by
  cases h with
  | token _ hline hspan _ _ herr => rw [herr, hspan, hline, Diagnostic.columnOf_byteLength]
  | stop _ herr =>
    rw [herr]
    simpa using Diagnostic.columnOf_byteLength line.toList []

/-- There is a caret for each character of the token that parsing fails at. -/
theorem caretCount_span (h : FailsAt line err before width) :
    Diagnostic.caretCount line.toList err.span = width := by
  cases h with
  | token _ hline hspan hstarts _ herr =>
    rw [herr, hspan, hline, Diagnostic.caretCount_byteLength]
    exact Nat.max_eq_left (List.length_pos_of_ne_nil hstarts.ne_nil)
  | stop _ herr =>
    rw [herr]
    exact Diagnostic.caretCount_point _ _

end FailsAt

/-- What the console shows of a line that cannot be parsed. -/
theorem Session.step_of_parse_error {line : String} {err : ParseError}
    (h : Command.parse line = .error err) (hblank : Text.blank line = false) (limits : Limits)
    (s : Session) :
    (Session.step limits s line).2.1 = Session.showRejection (.ofParseError line err) := by
  have hprepare : Session.prepare limits.checking s.table line =
      .error (.ofParseError line err) := by
    rw [Session.prepare, h]
  rw [Session.step, if_neg (by simp [hblank]), hprepare]
  rfl

/-- The report of a line that cannot be parsed shows the line, and below it as many spaces as there are
characters before the offending token and as many carets as there are in the token, or one at the end of
the line.  The console shows one caret at the same column. -/
theorem carets_under_offending {line : String} {err : ParseError}
    (hsize : line.utf8ByteSize < 2 ^ 32) (h : Command.parse line = .error err) :
    ∃ before width, FailsAt line err before width ∧
      Painted.render false (err.diagnostic line).report =
        (err.diagnostic line).headline ++ "\n" ++
          Diagnostic.underlined line before.length width ++ (err.diagnostic line).remarkRows ∧
      ∀ limits s, Text.blank line = false →
        Painted.render false (Session.step limits s line).2.1 =
          (err.diagnostic line).headline ++ "\n" ++
            Diagnostic.underlined line before.length 1 ++
            String.join (err.suggestions.map (Diagnostic.remarkRow "help")) := by
  obtain ⟨before, width, hfails⟩ := exists_failsAt hsize h
  have hoffset : min err.offset Span.maxOffset = err.offset :=
    Nat.min_eq_left (hfails.offset_le.trans (Nat.le_of_lt_succ hsize))
  refine ⟨before, width, hfails, ?_, fun limits s hblank => ?_⟩
  · rw [Diagnostic.render_report rfl, hfails.columnOf_start, hfails.caretCount_span]
  · rw [Session.step_of_parse_error h hblank]
    simp only [Session.showRejection, Rejection.ofParseError, Option.map_some, hoffset]
    rw [Diagnostic.render_report rfl, Diagnostic.caretCount_point]
    have hcolumn : Diagnostic.columnOf line.toList (Span.point err.offset).start = before.length :=
      hfails.columnOf_start
    rw [hcolumn, Diagnostic.remarkRows, List.map_nil, String.join_nil, String.empty_append]
    rfl

/-- The second word of the line has seven characters and stands after two; the last character of the
line has two bytes. -/
theorem carets_under_offending_trailing :
    let line := "a symbols λ"
    let err : ParseError := ⟨.trailingInput, some (.keyword .symbols), ⟨2, 9⟩⟩
    line.utf8ByteSize < 2 ^ 32 ∧ Command.parse line = .error err ∧
      Painted.render false (err.diagnostic line).report =
        "error[E1008]: unexpected `symbols` after complete command\n  | a symbols λ\n  |   ^^^^^^^\n" ∧
      Painted.render false (Session.step (.both 8) .fresh line).2.1 =
        "error[E1008]: unexpected `symbols` after complete command\n  | a symbols λ\n  |   ^\n" := by
  intro line err
  have hsize : line.utf8ByteSize < 2 ^ 32 := by decide
  have hparse : Command.parse line = .error err := by cbv
  obtain ⟨before, width, hfails, hreport, hconsole⟩ := carets_under_offending hsize hparse
  have hwidth : width = 7 := hfails.caretCount_span.symm.trans (by decide)
  have hbefore : before.length = 2 := hfails.columnOf_start.symm.trans (by decide)
  rw [hreport, hconsole (.both 8) .fresh (by decide), hwidth, hbefore]
  exact ⟨hsize, hparse, by decide, by decide⟩

end Reckoner
