import Mathlib
import Reckoner.Proofs.Token.Rules

/-! # A line cut into tokens

Read from its start, a text is cut into blanks and tokens, and each token is the longest that some
rule matches where it starts, or one character where no rule matches.  What is scanned is exactly
this cut, so the tokens of a line lie in it one after the other and leave out nothing but blanks.
-/
namespace Reckoner.Token

/-! ### Offsets -/

section Bytes

@[simp] theorem byteLength_nil : byteLength [] = 0 := rfl

@[simp] theorem byteLength_cons (c : Char) (cs : List Char) :
    byteLength (c :: cs) = c.utf8Size + byteLength cs := rfl

@[simp] theorem byteLength_append (cs ds : List Char) :
    byteLength (cs ++ ds) = byteLength cs + byteLength ds := by
  induction cs with
  | nil => simp
  | cons c cs ih => simp [ih, Nat.add_assoc]

theorem byteLength_toList (s : String) : byteLength s.toList = s.utf8ByteSize := by
  have h : ∀ cs : List Char, byteLength cs = (String.ofList cs).utf8ByteSize := by
    intro cs
    induction cs with
    | nil => rfl
    | cons c cs ih =>
      rw [byteLength_cons, ih, ← List.singleton_append, String.ofList_append,
        String.utf8ByteSize_append, ← String.singleton_eq_ofList, String.utf8ByteSize_singleton]
  rw [h, String.ofList_toList]

theorem byteLength_pos {cs : List Char} (h : cs ≠ []) : 0 < byteLength cs := by
  obtain ⟨c, cs, rfl⟩ := List.exists_cons_of_ne_nil h
  exact Nat.add_pos_left c.utf8Size_pos _

theorem utf8Size_of_isSpace {c : Char} (h : isSpace c = true) : c.utf8Size = 1 := by
  simp only [isSpace, Bool.or_eq_true, beq_iff_eq] at h
  rcases h with ((rfl | rfl) | rfl) | rfl <;> rfl

end Bytes

/-! ### The cut -/

/-- The token that a text starts with: the longest text that a rule matches or, where no rule
matches, a single character that is no blank. -/
inductive Starts : List Char → List Char → Kind → Prop where
  | token {cs text : List Char} {kind : Kind} (h : Longest cs text kind) : Starts cs text kind
  | invalid {c : Char} {cs : List Char} (hc : isSpace c = false) (h : Unmatched (c :: cs)) :
      Starts (c :: cs) [c] .invalid

/-- Read from its start at an offset, a text that begins with some characters, and has others
after them, is cut into these tokens and blanks up to where the others begin. -/
inductive Cut (after : List Char) : Nat → List Char → List Token → Prop where
  | done (o : Nat) : Cut after o [] []
  | blank {o : Nat} {c : Char} {front : List Char} {ts : List Token} (hc : isSpace c = true)
      (h : Cut after (o + c.utf8Size) front ts) : Cut after o (c :: front) ts
  | token {o : Nat} {text front : List Char} {kind : Kind} {ts : List Token}
      (hstarts : Starts (text ++ (front ++ after)) text kind)
      (h : Cut after (o + byteLength text) front ts) :
      Cut after o (text ++ front) (⟨kind, Span.ofRange o (o + byteLength text)⟩ :: ts)

namespace Starts

variable {c : Char} {cs text rest : List Char} {kind : Kind}

theorem ne_nil (h : Starts cs text kind) : text ≠ [] := by
  cases h with
  | token h => exact h.rule.ne_nil
  | invalid hc h => exact List.cons_ne_nil _ _

theorem front (h : Starts cs text kind) : text <+: cs := by
  cases h with
  | token h => exact h.front
  | invalid hc h => exact List.prefix_append [_] _

theorem not_space (h : Starts (c :: cs) text kind) : isSpace c = false := by
  cases h with
  | token h =>
    obtain ⟨tail, rfl⟩ := h.rule.exists_tail h.front
    exact h.rule.not_space_head
  | invalid hc h => exact hc

end Starts

theorem exists_starts {c : Char} (hc : isSpace c = false) (cs : List Char) :
    ∃ text rest kind, c :: cs = text ++ rest ∧ Starts (text ++ rest) text kind := by
  cases hlexeme : lexeme? (c :: cs) with
  | none =>
    exact ⟨[c], cs, .invalid, rfl, .invalid hc (lexeme?_eq_none_iff.mp hlexeme)⟩
  | some found =>
    have hlongest := lexeme?_eq_some_iff.mp hlexeme
    obtain ⟨rest, hrest⟩ := hlongest.front
    exact ⟨found.2, rest, found.1, hrest.symm, .token (hrest ▸ hlongest)⟩

/-! ### What is scanned is the cut -/

section Scan

variable {o : Nat} {text front after rest : List Char} {kind : Kind} {ts : List Token}

theorem scanFrom_skip (o : Nat) (front rest : List Char) :
    scanFrom o front.length (front ++ rest) = scanFrom (o + byteLength front) 0 rest := by
  induction front generalizing o with
  | nil => rfl
  | cons c front ih =>
    rw [byteLength_cons, ← Nat.add_assoc]
    exact ih (o + c.utf8Size)

theorem scanFrom_blank {c : Char} (hc : isSpace c = true) (o : Nat) (rest : List Char) :
    scanFrom o 0 (c :: rest) = scanFrom (o + c.utf8Size) 0 rest := by
  simp only [scanFrom, hc, if_true]

theorem scanFrom_of_starts (h : Starts (text ++ rest) text kind) :
    scanFrom o 0 (text ++ rest) =
      ⟨kind, Span.ofRange o (o + byteLength text)⟩ ::
        scanFrom (o + byteLength text) 0 rest := by
  obtain ⟨c, text, rfl⟩ := List.exists_cons_of_ne_nil h.ne_nil
  have hlength : (c :: text).length - 1 = text.length := rfl
  rw [List.cons_append] at h ⊢
  simp only [scanFrom, h.not_space, Bool.false_eq_true, if_false, byteLength_cons]
  cases h with
  | token h =>
    simp only [lexeme?_eq_some_iff.mpr h, hlength, scanFrom_skip, byteLength_cons, Nat.add_assoc]
  | invalid hc h =>
    have hnone : lexeme? (c :: rest) = none := lexeme?_eq_none_iff.mpr h
    simp only [hnone, byteLength_nil, Nat.add_zero, List.nil_append]

/-- A text is scanned up to a place where it is cut as if what comes after were not there, and what
comes after is scanned as if it stood alone. -/
theorem Cut.scanFrom_eq (h : Cut after o front ts) :
    scanFrom o 0 (front ++ after) = ts ++ scanFrom (o + byteLength front) 0 after := by
  induction h with
  | done o => simp
  | blank hc _ ih =>
    rw [List.cons_append, scanFrom_blank hc, ih, byteLength_cons, Nat.add_assoc]
  | token hstarts _ ih =>
    rw [List.append_assoc, scanFrom_of_starts hstarts, ih, byteLength_append, Nat.add_assoc,
      List.cons_append]

/-- Every text is cut to its end. -/
theorem cut_scanFrom (o : Nat) (cs : List Char) : Cut [] o cs (scanFrom o 0 cs) := by
  -- A token takes up one character or more, so the length of what is left decreases.
  induction hn : cs.length using Nat.strong_induction_on generalizing o cs with
  | _ n ih =>
    cases cs with
    | nil => exact .done o
    | cons c cs =>
      by_cases hc : isSpace c = true
      · rw [scanFrom_blank hc]
        exact .blank hc (ih cs.length (by simp [← hn]) _ _ rfl)
      · obtain ⟨text, rest, kind, htext, hstarts⟩ := exists_starts (Bool.eq_false_iff.mpr hc) cs
        have hlt : rest.length < n := by
          rw [← hn, htext, List.length_append]
          exact Nat.lt_add_of_pos_left (List.length_pos_of_ne_nil hstarts.ne_nil)
        rw [htext, scanFrom_of_starts hstarts]
        refine .token ?_ (ih rest.length hlt _ _ rfl)
        rwa [List.append_nil]

end Scan

/-! ### Where the tokens of a cut lie -/

namespace Cut

variable {o : Nat} {front after : List Char} {ts : List Token}

/-- Every token covers some of the text, and the text starts with it there. -/
theorem exists_text (h : Cut after o front ts) (hsize : o + byteLength front ≤ Span.maxOffset) :
    ∀ t ∈ ts, ∃ before text rest, front = before ++ (text ++ rest) ∧
      t.span = ⟨o + byteLength before, o + byteLength before + byteLength text⟩ ∧
      Starts (text ++ (rest ++ after)) text t.kind := by
  induction h with
  | done o => simp
  | @blank o c front ts hc _ ih =>
    intro t ht
    rw [byteLength_cons, ← Nat.add_assoc] at hsize
    obtain ⟨before, text, rest, hfront, hspan, hstarts⟩ := ih hsize t ht
    refine ⟨c :: before, text, rest, by rw [hfront, List.cons_append], ?_, hstarts⟩
    rw [hspan, byteLength_cons, Nat.add_assoc o]
  | @token o text front kind ts hstarts _ ih =>
    rw [byteLength_append, ← Nat.add_assoc] at hsize
    rw [List.forall_mem_cons]
    constructor
    · exact ⟨[], text, front, rfl, Span.ofRange_eq (by omega) (by omega), hstarts⟩
    · intro t ht
      obtain ⟨before, text', rest, hfront, hspan, hstarts'⟩ := ih hsize t ht
      refine ⟨text ++ before, text', rest, by rw [hfront, List.append_assoc], ?_, hstarts'⟩
      rw [hspan, byteLength_append, Nat.add_assoc o]

/-- The tokens follow one another. -/
theorem pairwise (h : Cut after o front ts) (hsize : o + byteLength front ≤ Span.maxOffset) :
    ts.Pairwise fun t u => t.span.stop ≤ u.span.start := by
  induction h with
  | done o => exact .nil
  | blank hc _ ih =>
    rw [byteLength_cons, ← Nat.add_assoc] at hsize
    exact ih hsize
  | token hstarts h ih =>
    rw [byteLength_append, ← Nat.add_assoc] at hsize
    refine List.pairwise_cons.mpr ⟨fun t ht => ?_, ih hsize⟩
    obtain ⟨before, text, rest, -, hspan, -⟩ := h.exists_text hsize t ht
    rw [hspan, Span.ofRange_eq (by omega) (by omega)]
    exact Nat.le_add_right _ _

/-- A byte that no token covers is a blank. -/
theorem exists_blank (h : Cut after o front ts) (hsize : o + byteLength front ≤ Span.maxOffset)
    {p : Nat} (hp : p < byteLength front)
    (huncovered : ∀ t ∈ ts, ¬ (t.span.start ≤ o + p ∧ o + p < t.span.stop)) :
    ∃ before c rest, front = before ++ c :: rest ∧ byteLength before = p ∧ isSpace c = true := by
  induction h generalizing p with
  | done o => cases hp
  | @blank o c front ts hc _ ih =>
    have hone := utf8Size_of_isSpace hc
    rw [byteLength_cons, hone] at hsize hp
    cases p with
    | zero => exact ⟨[], c, front, rfl, rfl, hc⟩
    | succ p =>
      obtain ⟨before, d, rest, hfront, hbefore, hd⟩ := ih (p := p) (by omega) (by omega)
        (by simpa [hone, Nat.add_assoc, Nat.add_comm 1] using huncovered)
      exact ⟨c :: before, d, rest, by rw [hfront, List.cons_append],
        by rw [byteLength_cons, hone, hbefore, Nat.add_comm], hd⟩
  | @token o text front kind ts hstarts _ ih =>
    rw [byteLength_append] at hsize hp
    obtain ⟨hfirst, hothers⟩ := List.forall_mem_cons.mp huncovered
    rw [Span.ofRange_eq (by omega) (by omega)] at hfirst
    -- The byte lies behind the first token, which starts where the text does.
    have hle : byteLength text ≤ p := by
      by_contra hlt
      exact hfirst ⟨Nat.le_add_right o p, Nat.add_lt_add_left (Nat.not_le.mp hlt) o⟩
    obtain ⟨q, rfl⟩ := Nat.exists_eq_add_of_le hle
    obtain ⟨before, d, rest, hfront, hbefore, hd⟩ := ih (p := q) (by omega) (by omega)
      (by simpa [Nat.add_assoc] using hothers)
    exact ⟨text ++ before, d, rest, by rw [hfront, List.append_assoc],
      by rw [byteLength_append, hbefore], hd⟩

end Cut

/-- The tokens of a line as a partition of its text.  Each token covers a text in the line with
which, and with what comes after it, the line goes on there; the tokens are in order and do not
overlap; every byte that they leave out is a blank; and the empty span at the end is where the line
ends. -/
structure Partitions (line : String) (l : TokenLine) : Prop where
  stop : l.stop = ⟨line.utf8ByteSize, line.utf8ByteSize⟩
  ordered : l.tokens.Pairwise fun t u => t.span.stop ≤ u.span.start
  covers : ∀ t ∈ l.tokens, ∃ before text after, line.toList = before ++ (text ++ after) ∧
    t.span = ⟨byteLength before, byteLength before + byteLength text⟩ ∧
    t.span.start < t.span.stop ∧ Starts (text ++ after) text t.kind
  blanks : ∀ p < line.utf8ByteSize,
    (∀ t ∈ l.tokens, ¬ (t.span.start ≤ p ∧ p < t.span.stop)) →
    ∃ before c after, line.toList = before ++ c :: after ∧ byteLength before = p ∧
      isSpace c = true

/-- A line is cut into its tokens by taking the longest one everywhere. -/
theorem partitions_ofString {line : String} (h : line.utf8ByteSize < 2 ^ 32) :
    Partitions line (TokenLine.ofString line) := by
  have hmax : line.utf8ByteSize ≤ Span.maxOffset := Nat.le_of_lt_succ h
  have hcut := cut_scanFrom 0 line.toList
  have hsize : 0 + byteLength line.toList ≤ Span.maxOffset := by
    rwa [Nat.zero_add, byteLength_toList]
  refine ⟨Span.ofRange_eq hmax hmax, hcut.pairwise hsize, fun t ht => ?_, fun p hp hp' => ?_⟩
  · obtain ⟨before, text, after, hline, hspan, hstarts⟩ := hcut.exists_text hsize t ht
    rw [List.append_nil] at hstarts
    rw [Nat.zero_add] at hspan
    refine ⟨before, text, after, hline, hspan, ?_, hstarts⟩
    rw [hspan]
    exact Nat.lt_add_of_pos_right (byteLength_pos hstarts.ne_nil)
  · rw [← byteLength_toList] at hp
    exact hcut.exists_blank hsize hp (by rwa [Nat.zero_add])

/-- A number backs off from an exponent without digits, and the invalid character has two bytes. -/
theorem partitions_ofString_backOff : "1e+ λ->letx".utf8ByteSize < 2 ^ 32 ∧
    Partitions "1e+ λ->letx" (TokenLine.ofString "1e+ λ->letx") :=
  ⟨by decide, partitions_ofString (by decide)⟩

end Reckoner.Token
