import Mathlib
import Reckoner.Proofs.Except
import Reckoner.Proofs.Grammar.Completeness
import Reckoner.Proofs.Token.Partition

/-! # Blanks between tokens

No token has a blank in it, so none goes on behind one: what stands before a blank is scanned as if
the line ended there, and what stands after it as if the line began there.  Where two tokens meet,
blanks may be put between them, and the line has the same tokens in other places.
-/
namespace Reckoner.Token

theorem not_space_of_isWordPart {c : Char} (h : isWordPart c = true) : isSpace c = false := by
  simp only [isSpace, Bool.or_eq_false_iff, beq_eq_false_iff_ne]
  refine ⟨⟨⟨?_, ?_⟩, ?_⟩, ?_⟩ <;> rintro rfl <;> revert h <;> decide

theorem NumberText.IsNumber.not_space {n : NumberText} (h : n.IsNumber) :
    ∀ c ∈ n.text, isSpace c = false := by
  have hdigits : ∀ ds ∈ Shape.row Char.isDigit, ∀ c ∈ ds, isSpace c = false := fun ds hds c hc =>
    not_space_of_isDigit (List.all_eq_true.mp (Shape.mem_row.mp hds).2 c hc)
  simp only [text, List.forall_mem_append]
  refine ⟨⟨hdigits _ h.whole, ?_⟩, ?_⟩
  · rcases Shape.mem_fraction.mp h.fraction with hnone | ⟨ds, hpoint, hds⟩
    · simp [hnone]
    · rw [hpoint, List.forall_mem_cons]
      exact ⟨rfl, hdigits ds hds⟩
  · rcases Shape.mem_exponent.mp h.exponent with hnone | ⟨c, sign, ds, hletter, hc, hsign, hds⟩
    · simp [hnone]
    · rw [hletter, List.forall_mem_cons, List.forall_mem_append]
      refine ⟨?_, ?_, hdigits ds hds⟩
      · rcases hc with rfl | rfl <;> rfl
      · rcases hsign with rfl | rfl | rfl <;> simp [isSpace]

/-- No rule matches a text with a blank in it. -/
theorem Rule.not_space {text : List Char} {kind : Kind} (h : Rule text kind) :
    ∀ c ∈ text, isSpace c = false := by
  have hwords : ∀ cs ∈ Shape.word, ∀ c ∈ cs, isSpace c = false := by
    intro cs hcs c hc
    obtain ⟨d, ds, rfl, hd, hds⟩ := Shape.mem_word.mp hcs
    rcases List.mem_cons.mp hc with rfl | hc
    · exact not_space_of_isWordPart (isWordPart_of_isWordStart hd)
    · exact not_space_of_isWordPart (List.all_eq_true.mp hds c hc)
  cases h with
  | keyword k => exact hwords _ k.word
  | mark m =>
    have hmark : m.text.toList.all (fun c => !isSpace c) = true := by cases m <;> rfl
    simpa using hmark
  | number hn => exact hn.not_space
  | identifier hword => exact hwords _ hword

/-! ### Another text after a cut -/

/-- Whatever a rule matches before and in the second text, it matches before and in the first. -/
def ReachesNoFurther (after after' : List Char) : Prop :=
  ∀ text kind cs, Rule text kind → text <+: cs ++ after' → text <+: cs ++ after

theorem reachesNoFurther_nil (after : List Char) : ReachesNoFurther after [] := by
  intro text kind cs _ hfront
  rw [List.append_nil] at hfront
  exact hfront.trans (List.prefix_append cs after)

/-- A blank ends whatever stands before it. -/
theorem reachesNoFurther_blank {c : Char} (hc : isSpace c = true) (after : List Char) :
    ReachesNoFurther [] (c :: after) := by
  intro text kind cs hrule hfront
  rw [List.append_nil]
  by_cases hlength : text.length ≤ cs.length
  · exact List.prefix_of_prefix_length_le hfront (List.prefix_append cs _) hlength
  · have hblank : cs ++ [c] <+: cs ++ c :: after :=
      (List.prefix_append_right_inj cs).mpr (List.prefix_append [c] after)
    have hinside : cs ++ [c] <+: text := by
      refine List.prefix_of_prefix_length_le hblank hfront ?_
      rw [List.length_append, List.length_singleton]
      omega
    have hmem : c ∈ text := hinside.subset (List.mem_append_right cs (List.mem_singleton_self c))
    rw [hrule.not_space c hmem] at hc
    cases hc

section Exchange

variable {o : Nat} {c : Char} {text front after after' : List Char} {kind : Kind} {ts : List Token}

theorem Longest.exchange (h : Longest (text ++ (front ++ after)) text kind)
    (hreach : ReachesNoFurther after after') :
    Longest (text ++ (front ++ after')) text kind := by
  refine ⟨List.prefix_append text _, h.rule, fun text' kind' hfront hrule => ?_, h.reserved⟩
  rw [← List.append_assoc] at hfront
  have hfront' := hreach text' kind' _ hrule hfront
  rw [List.append_assoc] at hfront'
  exact h.longest text' kind' hfront' hrule

theorem Starts.exchange (h : Starts (text ++ (front ++ after)) text kind)
    (hreach : ReachesNoFurther after after') :
    Starts (text ++ (front ++ after')) text kind := by
  generalize hcs : text ++ (front ++ after) = cs at h
  cases h with
  | token h =>
    subst hcs
    exact .token (h.exchange hreach)
  | @invalid c cs hc h =>
    obtain rfl : front ++ after = cs := (List.cons.inj hcs).2
    exact .invalid hc fun text' kind' hfront hrule =>
      h text' kind' (hreach text' kind' (c :: front) hrule hfront) hrule

/-- A cut stays where it is when the text after it is exchanged for one in which no token gets any
longer. -/
theorem Cut.exchange (h : Cut after o front ts) (hreach : ReachesNoFurther after after') :
    Cut after' o front ts := by
  induction h with
  | done o => exact .done o
  | blank hc _ ih => exact .blank hc ih
  | token hstarts _ ih => exact .token (hstarts.exchange hreach) ih

/-- A cut text is cut in the same way where blanks are put after it. -/
theorem Cut.before_blank (h : Cut after o front ts) (hc : isSpace c = true) :
    Cut (c :: after') o front ts :=
  (h.exchange (reachesNoFurther_nil after)).exchange (reachesNoFurther_blank hc after')

end Exchange

theorem scanFrom_blanks {w : List Char} (hw : ∀ c ∈ w, isSpace c = true) (o : Nat)
    (rest : List Char) : scanFrom o 0 (w ++ rest) = scanFrom (o + byteLength w) 0 rest := by
  induction w generalizing o with
  | nil => rfl
  | cons c w ih =>
    obtain ⟨hc, hw⟩ := List.forall_mem_cons.mp hw
    rw [List.cons_append, scanFrom_blank hc, ih hw, byteLength_cons, Nat.add_assoc]

/-- Blanks put after a cut text move what comes after it, and change nothing else. -/
theorem Cut.scanFrom_blanks {o : Nat} {front after w rest : List Char} {ts : List Token}
    (h : Cut after o front ts) (hne : w ≠ []) (hw : ∀ c ∈ w, isSpace c = true) :
    scanFrom o 0 (front ++ (w ++ rest)) =
      ts ++ scanFrom (o + byteLength front + byteLength w) 0 rest := by
  obtain ⟨c, w, rfl⟩ := List.exists_cons_of_ne_nil hne
  rw [← Token.scanFrom_blanks hw]
  exact (h.before_blank (hw c List.mem_cons_self)).scanFrom_eq

end Reckoner.Token

namespace Reckoner

/-! ### Moved tokens -/

def Span.shift (n : Nat) (s : Span) : Span :=
  ⟨s.start + n, s.stop + n⟩

def Token.shift (n : Nat) (t : Token) : Token :=
  ⟨t.kind, t.span.shift n⟩

namespace Token

theorem Cut.shift {n o : Nat} {front after : List Char} {ts : List Token} (h : Cut after o front ts)
    (hsize : o + byteLength front + n ≤ Span.maxOffset) :
    Cut after (o + n) front (ts.map (Token.shift n)) := by
  induction h with
  | done o => exact .done _
  | @blank o c front ts hc _ ih =>
    rw [byteLength_cons] at hsize
    refine .blank hc ?_
    rw [Nat.add_right_comm]
    exact ih (by omega)
  | @token o text front kind ts hstarts _ ih =>
    rw [byteLength_append] at hsize
    have hmoved : Token.shift n ⟨kind, Span.ofRange o (o + byteLength text)⟩ =
        ⟨kind, Span.ofRange (o + n) (o + n + byteLength text)⟩ := by
      rw [Span.ofRange_eq (by omega) (by omega), Span.ofRange_eq (by omega) (by omega),
        Nat.add_right_comm]
      rfl
    rw [List.map_cons, hmoved]
    refine .token hstarts ?_
    rw [Nat.add_right_comm]
    exact ih (by omega)

/-- What is scanned further on in a line is the same further on. -/
theorem scanFrom_add {n o : Nat} {cs : List Char} (h : o + byteLength cs + n ≤ Span.maxOffset) :
    scanFrom (o + n) 0 cs = (scanFrom o 0 cs).map (shift n) := by
  have hscan := ((cut_scanFrom o cs).shift h).scanFrom_eq
  rwa [List.append_nil, scanFrom, List.append_nil] at hscan

/-! ### Places between tokens -/

/-- A line is cut between its two parts: no token of it goes across. -/
def CutBetween (a b : String) : Prop :=
  ∃ ts, Cut b.toList 0 a.toList ts

/-- A cut text is also cut where no token goes across. -/
theorem Cut.split {o : Nat} {front back after : List Char} {ts : List Token}
    (h : Cut after o (front ++ back) ts)
    (hsize : o + byteLength (front ++ back) ≤ Span.maxOffset)
    (hapart : ∀ t ∈ ts, ¬ (t.span.start < o + byteLength front ∧
      o + byteLength front < t.span.stop)) : ∃ us, Cut (back ++ after) o front us := by
  generalize hcs : front ++ back = cs at h hsize
  induction h generalizing front with
  | done o =>
    obtain ⟨rfl, -⟩ := List.append_eq_nil_iff.mp hcs
    exact ⟨[], .done o⟩
  | @blank o c cs ts hc _ ih =>
    cases front with
    | nil => exact ⟨[], .done o⟩
    | cons d front =>
      obtain ⟨rfl, rfl⟩ := List.cons.inj hcs
      rw [byteLength_cons, ← Nat.add_assoc] at hsize hapart
      obtain ⟨us, hus⟩ := ih hapart rfl hsize
      exact ⟨us, .blank hc hus⟩
  | @token o text rest kind ts hstarts _ ih =>
    rcases List.append_eq_append_iff.mp hcs with ⟨x, rfl, rfl⟩ | ⟨x, rfl, rfl⟩
    · -- The first token reaches up to the place or across it, and goes across if it has more.
      obtain ⟨hfirst, -⟩ := List.forall_mem_cons.mp hapart
      simp only [byteLength_append] at hsize hfirst
      rw [Span.ofRange_eq (by omega) (by omega)] at hfirst
      by_cases hfront : front = []
      · subst hfront
        exact ⟨[], .done o⟩
      · have hx : x = [] := by
          by_contra hne
          exact hfirst ⟨Nat.lt_add_of_pos_right (byteLength_pos hfront),
            Nat.add_lt_add_left (Nat.lt_add_of_pos_right (byteLength_pos hne)) o⟩
        subst hx
        rw [List.append_nil] at hstarts
        have hcut : Cut ([] ++ rest ++ after) o (front ++ []) _ :=
          .token (by simpa using hstarts) (.done _)
        rw [List.append_nil] at hcut
        exact ⟨_, hcut⟩
    · rw [byteLength_append, ← Nat.add_assoc] at hsize
      rw [byteLength_append, ← Nat.add_assoc] at hapart
      obtain ⟨us, hus⟩ := ih (List.forall_mem_cons.mp hapart).2 rfl hsize
      rw [List.append_assoc] at hstarts
      exact ⟨_, .token hstarts hus⟩

/-- No token goes across a place where one has ended and the next has not begun. -/
theorem not_across_of_adjacent {front back : List Token} {t u : Token} {n : Nat}
    (hordered : (front ++ t :: u :: back).Pairwise fun v w => v.span.stop ≤ w.span.start)
    (hforward : ∀ v ∈ front ++ t :: u :: back, v.span.start ≤ v.span.stop)
    (ht : t.span.stop ≤ n) (hu : n ≤ u.span.start) :
    ∀ v ∈ front ++ t :: u :: back, ¬ (v.span.start < n ∧ n < v.span.stop) := by
  obtain ⟨-, hrest, hfront⟩ := List.pairwise_append.mp hordered
  obtain ⟨-, hback⟩ := List.pairwise_cons.mp hrest
  have htf := hforward t (by simp)
  have huf := hforward u (by simp)
  intro v hv
  rcases List.mem_append.mp hv with hv | hv
  · have hvt := hfront v hv t List.mem_cons_self
    omega
  · rcases List.mem_cons.mp hv with rfl | hv
    · omega
    · rcases List.mem_cons.mp hv with rfl | hv
      · omega
      · have huv := (List.pairwise_cons.mp hback).1 v hv
        omega

/-- A line is cut between two tokens that follow each other. -/
theorem cutBetween_of_adjacent {a b : String} {front back : List Token} {t u : Token}
    (hsize : (a ++ b).utf8ByteSize < 2 ^ 32)
    (htokens : (TokenLine.ofString (a ++ b)).tokens = front ++ t :: u :: back)
    (ht : t.span.stop ≤ a.utf8ByteSize) (hu : a.utf8ByteSize ≤ u.span.start) :
    CutBetween a b := by
  have hcut : Cut [] 0 (a.toList ++ b.toList) (front ++ t :: u :: back) := by
    rw [← String.toList_append, ← htokens]
    exact cut_scanFrom 0 _
  have hbound : 0 + byteLength (a.toList ++ b.toList) ≤ Span.maxOffset := by
    rw [Nat.zero_add, ← String.toList_append, byteLength_toList]
    exact Nat.le_of_lt_succ hsize
  have hforward : ∀ v ∈ front ++ t :: u :: back, v.span.start ≤ v.span.stop := by
    intro v hv
    obtain ⟨before, text, rest, -, hspan, -⟩ := hcut.exists_text hbound v hv
    rw [hspan]
    exact Nat.le_add_right _ _
  obtain ⟨us, hus⟩ := hcut.split hbound
    (not_across_of_adjacent (hcut.pairwise hbound) hforward
      (by rwa [Nat.zero_add, byteLength_toList]) (by rwa [Nat.zero_add, byteLength_toList]))
  rw [List.append_nil] at hus
  exact ⟨us, hus⟩

/-- What a line commands is told by the kinds of its tokens. -/
theorem parse_eq_ok_iff {line : String} {c : Command} :
    Command.parse line = .ok c ↔
      Grammar.Sentence ((TokenLine.ofString line).tokens.map Token.kind) c :=
  mapError_eq_ok_iff.trans ⟨Grammar.sentence_of_parseTokens, Grammar.parseTokens_of_sentence⟩

/-- Two parts of a line with blanks between them are scanned one by one, and blanks between two
tokens of a line change neither what these are nor what the line commands. -/
theorem ofString_blanks {a w b : String} (hne : w ≠ "") (hw : ∀ c ∈ w.toList, isSpace c = true) :
    ((a ++ w ++ b).utf8ByteSize < 2 ^ 32 →
      TokenLine.ofString (a ++ w ++ b) =
        ⟨(TokenLine.ofString a).tokens ++
            (TokenLine.ofString b).tokens.map (shift (a ++ w).utf8ByteSize),
          (TokenLine.ofString b).stop.shift (a ++ w).utf8ByteSize⟩) ∧
    (CutBetween a b →
      (TokenLine.ofString (a ++ w ++ b)).tokens.map Token.kind =
          (TokenLine.ofString (a ++ b)).tokens.map Token.kind ∧
        ∀ c, Command.parse (a ++ w ++ b) = .ok c ↔ Command.parse (a ++ b) = .ok c) ∧
    ∀ front t u back, (a ++ b).utf8ByteSize < 2 ^ 32 →
      (TokenLine.ofString (a ++ b)).tokens = front ++ t :: u :: back →
      t.span.stop ≤ a.utf8ByteSize → a.utf8ByteSize ≤ u.span.start → CutBetween a b := by
  have hne' : w.toList ≠ [] := by simpa using hne
  refine ⟨fun hsize => ?_, fun ⟨ts, hcut⟩ => ?_, fun front t u back hsize htokens ht hu =>
    cutBetween_of_adjacent hsize htokens ht hu⟩
  · have hlength : (a ++ w ++ b).utf8ByteSize = b.utf8ByteSize + (a ++ w).utf8ByteSize := by
      rw [String.utf8ByteSize_append, Nat.add_comm]
    have hmax : b.utf8ByteSize + (a ++ w).utf8ByteSize ≤ Span.maxOffset :=
      hlength ▸ Nat.le_of_lt_succ hsize
    have htext : (a ++ w ++ b).toList = a.toList ++ (w.toList ++ b.toList) := by
      rw [String.toList_append, String.toList_append, List.append_assoc]
    have hoffset : 0 + byteLength a.toList + byteLength w.toList = 0 + (a ++ w).utf8ByteSize := by
      rw [byteLength_toList, byteLength_toList, String.utf8ByteSize_append, Nat.add_assoc]
    have hstop : Span.ofRange (a ++ w ++ b).utf8ByteSize (a ++ w ++ b).utf8ByteSize =
        (Span.ofRange b.utf8ByteSize b.utf8ByteSize).shift (a ++ w).utf8ByteSize := by
      rw [hlength, Span.ofRange_eq hmax hmax, Span.ofRange_eq (by omega) (by omega), Span.shift]
    rw [TokenLine.ofString, htext, (cut_scanFrom 0 a.toList).scanFrom_blanks hne' hw, hoffset,
      scanFrom_add (by rwa [Nat.zero_add, byteLength_toList]), hstop]
    rfl
  · have hkinds : (TokenLine.ofString (a ++ w ++ b)).tokens.map Token.kind =
        (TokenLine.ofString (a ++ b)).tokens.map Token.kind := by
      simp only [TokenLine.ofString, String.toList_append, List.append_assoc]
      rw [hcut.scanFrom_blanks hne' hw, hcut.scanFrom_eq, List.map_append, List.map_append,
        map_kind_scanFrom]
    refine ⟨hkinds, fun c => ?_⟩
    rw [parse_eq_ok_iff, parse_eq_ok_iff, hkinds]

/-- Blanks between `<=` and `-`. -/
theorem ofString_blanks_operators :
    (TokenLine.ofString ("x<=" ++ " \t" ++ "-y")).tokens.map Token.kind =
        (TokenLine.ofString ("x<=" ++ "-y")).tokens.map Token.kind ∧
      (∀ c, Command.parse ("x<=" ++ " \t" ++ "-y") = .ok c ↔
        Command.parse ("x<=" ++ "-y") = .ok c) ∧
      TokenLine.ofString ("x<=" ++ " \t" ++ "-y") =
        ⟨(TokenLine.ofString "x<=").tokens ++ (TokenLine.ofString "-y").tokens.map (shift 5),
          (TokenLine.ofString "-y").stop.shift 5⟩ := by
  obtain ⟨hscan, hkept, hcut⟩ := ofString_blanks (a := "x<=") (w := " \t") (b := "-y") (by decide)
    (by simp [isSpace])
  have hbetween : CutBetween "x<=" "-y" := hcut [_] ⟨.mark .lessOrEqual, ⟨1, 3⟩⟩
    ⟨.mark .minus, ⟨3, 4⟩⟩ [_] (by decide) rfl (by decide) (by decide)
  exact ⟨(hkept hbetween).1, (hkept hbetween).2, hscan (by decide)⟩

end Token

end Reckoner
