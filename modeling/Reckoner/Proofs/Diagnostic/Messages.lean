import Mathlib
import Reckoner.Proofs.Eval.Naming
import Reckoner.Proofs.Grammar.Failure
import Reckoner.Proofs.Grammar.Names
import Reckoner.Proofs.Text.Graphic
import Reckoner.Session.Basic

/-! # Messages without control characters

An error speaks of the tokens of its line and of the names of the program.  A line has no name with
a control character in it, so neither has the message of an error, nor its notes and suggestions.
-/
namespace Reckoner

open Text (Graphic)

namespace Token

theorem named_wordKind {word : String} (h : Graphic word) : (wordKind word).Named Graphic := by
  unfold wordKind
  split
  · trivial
  · exact h

theorem Mark.graphic_text (m : Mark) : Graphic m.text := by
  cases m <;> exact .literal rfl

theorem Keyword.graphic_text (w : Keyword) : Graphic w.text := by
  cases w <;> exact .literal rfl

theorem graphic_lastResult : Graphic lastResult :=
  .literal rfl

theorem named_of_lexeme? {cs text : List Char} {kind : Kind} (h : lexeme? cs = some (kind, text)) :
    kind.Named Graphic := by
  unfold lexeme? at h
  split at h
  · cases h
  · split at h
    · cases h
      trivial
    · split at h
      · cases h
        refine named_wordKind (Text.graphic_ofList.mpr fun c hc => ?_)
        exact toNat_of_isWordPart (List.mem_takeWhile_imp hc)
      · obtain ⟨m, -, heq⟩ := Option.map_eq_some_iff.mp h
        cases heq
        cases m with
        | hash => exact graphic_lastResult
        | _ => trivial

/-- The names in a line have no control characters. -/
theorem named_of_mem_scanFrom {offset pending : Nat} {cs : List Char} {t : Token}
    (h : t ∈ scanFrom offset pending cs) : t.kind.Named Graphic := by
  induction cs generalizing offset pending with
  | nil => cases h
  | cons c cs ih =>
    cases pending with
    | succ pending => exact ih h
    | zero =>
      simp only [scanFrom] at h
      split at h
      · exact ih h
      · split at h
        · rename_i hlexeme
          rcases List.mem_cons.mp h with rfl | h
          · exact named_of_lexeme? hlexeme
          · exact ih h
        · rcases List.mem_cons.mp h with rfl | h
          · trivial
          · exact ih h

theorem Kind.graphic_describe {k : Kind} (h : k.Named Graphic) : Graphic k.describe := by
  cases k with
  | keyword w =>
    simp only [describe, Text.graphic_append]
    exact ⟨⟨.literal rfl, w.graphic_text⟩, .literal rfl⟩
  | mark m =>
    simp only [describe, Text.graphic_append]
    exact ⟨⟨.literal rfl, m.graphic_text⟩, .literal rfl⟩
  | number x =>
    simp only [describe, Text.graphic_append]
    exact ⟨⟨.literal rfl, Numeral.graphic_text x⟩, .literal rfl⟩
  | identifier n =>
    simp only [describe, Text.graphic_append]
    exact ⟨⟨.literal rfl, h⟩, .literal rfl⟩
  | invalid => exact .literal rfl

end Token

def Rejection.Graphic (r : Rejection) : Prop :=
  Text.Graphic r.message ∧ ∀ hint ∈ r.hints, Text.Graphic hint

namespace ParseError

theorem graphic_message {e : ParseError} (hcause : e.cause.Asks)
    (hfound : ∀ k ∈ e.found, k.Named Graphic) : Graphic e.message := by
  have htext : Graphic e.foundText := by
    unfold foundText
    cases hk : e.found with
    | none => exact .literal rfl
    | some k => exact Token.Kind.graphic_describe (hfound k hk)
  unfold message
  split
  · rename_i expected heq
    rw [heq] at hcause
    simp only [Cause.Asks, List.mem_cons, List.not_mem_nil, or_false] at hcause
    simp only [Text.graphic_append]
    refine ⟨⟨⟨.literal rfl, ?_⟩, .literal rfl⟩, htext⟩
    rcases hcause with rfl | rfl | rfl <;> exact .literal rfl
  · exact Text.graphic_append.mpr ⟨.literal rfl, htext⟩
  · exact Text.graphic_append.mpr ⟨.literal rfl, htext⟩
  · exact Text.graphic_append.mpr ⟨.literal rfl, htext⟩
  · exact Text.graphic_append.mpr ⟨.literal rfl, htext⟩
  · exact .literal rfl
  · simp only [Text.graphic_append]
    exact ⟨⟨.literal rfl, htext⟩, .literal rfl⟩

theorem graphic_suggestions (e : ParseError) : ∀ s ∈ e.suggestions, Graphic s := by
  unfold suggestions
  split
  · intro s hs
    rw [List.mem_singleton.mp hs]
    exact .literal rfl
  · simp

/-- A line that cannot be parsed is told so without control characters. -/
theorem graphic_of_parse_error {line : String} {e : ParseError}
    (h : Command.parse line = .error e) : (Rejection.ofParseError line e).Graphic := by
  refine ⟨?_, e.graphic_suggestions⟩
  unfold Command.parse Command.ofTokenLine at h
  cases hfailure : Command.parseTokens (TokenLine.ofString line).tokens with
  | ok c => rw [hfailure] at h; cases h
  | error failure =>
    rw [hfailure] at h
    cases h
    obtain ⟨hrest, hasks⟩ := Grammar.suffix_of_parseTokens_error hfailure
    cases hts : failure.rest with
    | nil =>
      simp only [ofFailure, hts]
      exact graphic_message hasks (by simp)
    | cons t ts =>
      simp only [ofFailure, hts]
      refine graphic_message hasks fun k hk => ?_
      cases hk
      apply Token.named_of_mem_scanFrom
      exact hrest.subset (hts ▸ List.mem_cons_self)

end ParseError

/-- The names of a parsed expression have no control characters. -/
theorem Command.named_of_parse {line : String} {c : Command} (h : Command.parse line = .ok c) :
    (∀ e, c.expr? = some e → e.Named Graphic) ∧
      ∀ n e, c.binding? = some (n, e) → Graphic n := by
  have hsentence := Grammar.sentence_of_parseTokens (mapError_eq_ok_iff.mp h)
  have hkinds : ∀ k ∈ (TokenLine.ofString line).tokens.map Token.kind, k.Named Graphic := by
    intro k hk
    obtain ⟨t, ht, rfl⟩ := List.mem_map.mp hk
    exact Token.named_of_mem_scanFrom ht
  exact ⟨hsentence.named hkinds, fun n e => hsentence.bound_named Token.graphic_lastResult hkinds⟩

namespace TypeError

variable {err : TypeError}

theorem Named.graphic_message (h : err.Named Graphic) : Graphic err.message := by
  unfold message
  cases err with
  | unknownSymbol n suggestion =>
    simp only [Text.graphic_append]
    exact ⟨⟨.literal rfl, h.1⟩, .literal rfl⟩
  | unknownFunction n suggestion =>
    simp only [Text.graphic_append]
    exact ⟨⟨.literal rfl, h.1⟩, .literal rfl⟩
  | arityMismatch n expected actual => exact graphic_arityText h expected actual
  | incompatible left right =>
    simp only [Text.graphic_append]
    exact ⟨⟨⟨.literal rfl, left.graphic_caption⟩, .literal rfl⟩, right.graphic_caption⟩
  | recursionLimit limit =>
    simp only [Text.graphic_append]
    exact ⟨.literal rfl, Text.graphic_toString limit⟩

theorem Named.graphic_suggestions (h : err.Named Graphic) : ∀ s ∈ err.suggestions, Graphic s := by
  have hnames : ∀ n ∈ err.suggestion?, Graphic n := by
    cases err with
    | unknownSymbol n suggestion => exact h.2
    | unknownFunction n suggestion => exact h.2
    | _ => simp [suggestion?]
  intro s hs
  obtain ⟨n, hn, rfl⟩ := List.mem_map.mp hs
  simp only [Text.graphic_append]
  exact ⟨⟨.literal rfl, hnames n (Option.mem_toList.mp hn)⟩, .literal rfl⟩

end TypeError

namespace EvalError

theorem Cause.Named.graphic_message {cause : Cause} (h : cause.Named Graphic) :
    Graphic cause.message := by
  unfold message
  cases cause with
  | arityMismatch n expected actual => exact graphic_arityText h expected actual
  | incompatible left right =>
    simp only [Text.graphic_append]
    exact ⟨⟨⟨.literal rfl, Ty.graphic_name left⟩, .literal rfl⟩, Ty.graphic_name right⟩
  | recursionLimit limit =>
    simp only [Text.graphic_append]
    exact ⟨⟨.literal rfl, Text.graphic_toString limit⟩, .literal rfl⟩
  | native n text =>
    obtain ⟨hn, f, args, hrun⟩ := h
    simp only [Text.graphic_append]
    exact ⟨⟨⟨.literal rfl, hn⟩, .literal rfl⟩, Prelude.graphic_of_run hrun⟩
  | unknownSymbol n | unknownFunction n | unboundArgument n =>
    simp only [Text.graphic_append]
    exact ⟨⟨.literal rfl, h⟩, .literal rfl⟩

/-- The text of a frame shows its name. -/
theorem graphic_frame {f : StackFrame} (h : Graphic f.name) : Graphic f.text := by
  cases f <;>
  · simp only [StackFrame.text, Text.graphic_append]
    exact ⟨⟨.literal rfl, h⟩, .literal rfl⟩

theorem graphic_notes {err : EvalError} (h : err.backtrace.Named Graphic) :
    ∀ note ∈ err.diagnostic.notes, Graphic note := by
  intro note hnote
  obtain ⟨f, hf, rfl⟩ := List.mem_map.mp hnote
  exact Text.graphic_append.mpr ⟨.literal rfl, graphic_frame (h f (List.mem_of_mem_take hf))⟩

end EvalError

end Reckoner
