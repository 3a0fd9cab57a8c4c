import Mathlib
import Reckoner.Token.Scanner

/-! # Scanning a text part by part

What a text is scanned to does not depend on where it stands.  A part of a text is scanned by
itself if the character after it cannot belong to its last token; the texts of names, numbers and
punctuation marks each have one lemma that says so.
-/
namespace Reckoner.Token

def kinds (cs : List Char) : List Kind :=
  (scanFrom 0 0 cs).map Token.kind

/-- A text that carries on neither a word nor a number before it. -/
def Breaks (rest : List Char) : Prop :=
  ∀ c ∈ rest.head?, isWordPart c = false ∧ c ≠ '.'

theorem breaks_nil : Breaks [] := by
  simp [Breaks]

theorem breaks_cons {c : Char} (rest : List Char) (hc : isWordPart c = false) (hdot : c ≠ '.') :
    Breaks (c :: rest) := by
  simp [Breaks, hc, hdot]

/-- A text is scanned to some kinds wherever it is not carried on. -/
def Reads (cs : List Char) (ks : List Kind) : Prop :=
  ∀ rest, Breaks rest → kinds (cs ++ rest) = ks ++ kinds rest

theorem map_kind_scanFrom (o o' pending : Nat) (cs : List Char) :
    (scanFrom o pending cs).map Token.kind = (scanFrom o' pending cs).map Token.kind := by
  induction cs generalizing o o' pending with
  | nil => rfl
  | cons c cs ih =>
    cases pending with
    | succ pending => exact ih _ _ _
    | zero =>
      simp only [scanFrom]
      split
      · exact ih _ _ _
      · split
        · simp only [List.map_cons]
          rw [ih]
        · simp only [List.map_cons]
          rw [ih]

theorem scanFrom_pending (o : Nat) (front rest : List Char) :
    (scanFrom o front.length (front ++ rest)).map Token.kind = kinds rest := by
  induction front generalizing o with
  | nil => exact map_kind_scanFrom _ _ _ _
  | cons c front ih => exact ih _

/-- A token at the front of a text comes first, and the rest is scanned by itself. -/
theorem kinds_of_lexeme? {c : Char} {cs rest : List Char} {kind : Kind}
    (hspace : isSpace c = false) (h : lexeme? (c :: (cs ++ rest)) = some (kind, c :: cs)) :
    kinds (c :: (cs ++ rest)) = kind :: kinds rest := by
  have hlen : (c :: cs).length - 1 = cs.length := rfl
  simp only [kinds, scanFrom, hspace, h, hlen, Bool.false_eq_true, if_false, List.map_cons]
  rw [scanFrom_pending]
  rfl

theorem kinds_space (rest : List Char) : kinds (' ' :: rest) = kinds rest := by
  simp only [kinds, scanFrom, isSpace]
  exact map_kind_scanFrom _ _ _ _

section Marks

theorem Mark.exists_head (m : Mark) : ∃ c cs, m.text.toList = c :: cs ∧ isSpace c = false ∧
    c.isDigit = false ∧ isWordStart c = false := by
  cases m <;> exact ⟨_, _, rfl, by decide, by decide, by decide⟩

theorem kinds_mark {m : Mark} {rest : List Char} (h : markOf? (m.text.toList ++ rest) = some m) :
    kinds (m.text.toList ++ rest) = .mark m :: kinds rest := by
  obtain ⟨c, cs, htext, hspace, hdigit, hword⟩ := m.exists_head
  have hlexeme : lexeme? (m.text.toList ++ rest) = some (.mark m, m.text.toList) := by
    rw [htext, List.cons_append] at h ⊢
    simp only [lexeme?, hdigit, hword, Bool.false_eq_true, if_false, h, Option.map_some, htext]
  rw [htext, List.cons_append] at hlexeme ⊢
  exact kinds_of_lexeme? hspace hlexeme

/-- A mark before a space is not part of a longer one. -/
theorem kinds_mark_space (m : Mark) (rest : List Char) :
    kinds (m.text.toList ++ ' ' :: rest) = .mark m :: kinds rest := by
  have hmark : markOf? (m.text.toList ++ ' ' :: rest) = some m := by
    cases m <;> rfl
  rw [kinds_mark hmark, kinds_space]

variable (rest : List Char)

@[simp] theorem kinds_opening : kinds ('(' :: rest) = .mark .opening :: kinds rest :=
  kinds_mark (m := .opening) rfl

@[simp] theorem kinds_closing : kinds (')' :: rest) = .mark .closing :: kinds rest :=
  kinds_mark (m := .closing) rfl

@[simp] theorem kinds_comma : kinds (',' :: rest) = .mark .comma :: kinds rest :=
  kinds_mark (m := .comma) rfl

@[simp] theorem kinds_colon : kinds (':' :: rest) = .mark .colon :: kinds rest :=
  kinds_mark (m := .colon) rfl

@[simp] theorem kinds_hash : kinds ('#' :: rest) = .mark .hash :: kinds rest :=
  kinds_mark (m := .hash) rfl

@[simp] theorem kinds_arrow : kinds ('-' :: '>' :: rest) = .mark .arrow :: kinds rest :=
  kinds_mark (m := .arrow) rfl

theorem kinds_minus {c : Char} (hc : c ≠ '>') :
    kinds ('-' :: c :: rest) = .mark .minus :: kinds (c :: rest) := by
  have hmark : markOf? (Mark.minus.text.toList ++ c :: rest) = some .minus := by
    change markOf? ('-' :: c :: rest) = some .minus
    unfold markOf?
    split
    case h_1 heq => exact absurd (List.cons.inj (List.cons.inj heq).2).1 hc
    case h_15 => rfl
    case h_18 => exact (‹∀ tail, '-' :: c :: rest = '-' :: tail → False› (c :: rest) rfl).elim
    all_goals
      rename_i heq
      exact absurd (List.cons.inj heq).1 (by decide)
  exact kinds_mark hmark

end Marks

section Words

/-- A text that is a name: a letter or an underscore, then letters, digits and underscores, and not
a reserved word. -/
structure IsName (n : String) : Prop where
  word : ∃ c cs, n.toList = c :: cs ∧ isWordStart c = true ∧ cs.all isWordPart = true
  free : Keyword.ofText? n = none

theorem isWordPart_of_isWordStart {c : Char} (h : isWordStart c = true) :
    isWordPart c = true := by
  simp only [isWordStart, Bool.or_eq_true] at h
  simp only [isWordPart, Char.isAlphanum, Bool.or_eq_true]
  exact h.imp_left .inl

theorem not_space_not_digit {c : Char} (h : isWordStart c = true) :
    isSpace c = false ∧ c.isDigit = false := by
  constructor
  · simp only [isSpace, Bool.or_eq_false_iff, beq_eq_false_iff_ne]
    refine ⟨⟨⟨?_, ?_⟩, ?_⟩, ?_⟩ <;> rintro rfl <;> revert h <;> decide
  · simp only [isWordStart, Char.isAlpha, Char.isUpper, Char.isLower, Char.isDigit, Bool.or_eq_true,
      Bool.and_eq_true, decide_eq_true_eq, beq_iff_eq, Bool.and_eq_false_iff,
      decide_eq_false_iff_not] at h ⊢
    rcases h with (⟨h, -⟩ | ⟨h, -⟩) | rfl
    · exact .inr fun hle => absurd (UInt32.le_trans h hle) (by decide)
    · exact .inr fun hle => absurd (UInt32.le_trans h hle) (by decide)
    · decide

/-- A row of one sort ends where something of another sort follows. -/
theorem takeWhile_append_of_head {α : Type} {p : α → Bool} {row rest : List α}
    (hrow : row.all p = true) (hrest : ∀ c ∈ rest.head?, p c = false) :
    (row ++ rest).takeWhile p = row := by
  have hstop : rest.takeWhile p = [] := by
    cases rest with
    | nil => rfl
    | cons c rest => simp [hrest c rfl]
  rw [List.takeWhile_append_of_pos (by simpa using hrow), hstop, List.append_nil]

theorem Breaks.not_isWordPart {rest : List Char} (h : Breaks rest) :
    ∀ c ∈ rest.head?, isWordPart c = false :=
  fun c hc => (h c hc).1

theorem Breaks.not_isDigit {rest : List Char} (h : Breaks rest) :
    ∀ c ∈ rest.head?, c.isDigit = false := by
  intro c hc
  have hpart := (h c hc).1
  simp only [isWordPart, Char.isAlphanum, Bool.or_eq_false_iff] at hpart
  exact hpart.1.2

theorem kinds_word {word : String} {c : Char} {cs rest : List Char} (hword : word.toList = c :: cs)
    (hc : isWordStart c = true) (hcs : cs.all isWordPart = true) (hrest : Breaks rest) :
    kinds (word.toList ++ rest) = wordKind word :: kinds rest := by
  have hfacts := not_space_not_digit hc
  have htake : (c :: (cs ++ rest)).takeWhile isWordPart = c :: cs := by
    rw [← List.cons_append]
    refine takeWhile_append_of_head ?_ hrest.not_isWordPart
    simp [isWordPart_of_isWordStart hc, hcs]
  have hlexeme : lexeme? (c :: (cs ++ rest)) = some (wordKind word, c :: cs) := by
    simp only [lexeme?, hfacts.2, hc, htake, Bool.false_eq_true, if_false, if_true]
    rw [← hword, String.ofList_toList]
  rw [hword, List.cons_append]
  exact kinds_of_lexeme? hfacts.1 hlexeme

theorem IsName.kinds {n : String} (h : IsName n) {rest : List Char} (hrest : Breaks rest) :
    kinds (n.toList ++ rest) = .identifier n :: kinds rest := by
  obtain ⟨c, cs, hn, hc, hcs⟩ := h.word
  rw [kinds_word hn hc hcs hrest, wordKind, h.free]

theorem Keyword.exists_head (k : Keyword) : ∃ c cs, k.text.toList = c :: cs ∧
    isWordStart c = true ∧ cs.all isWordPart = true := by
  cases k <;> exact ⟨_, _, rfl, by decide, by decide⟩

theorem kinds_keyword (k : Keyword) {rest : List Char} (hrest : Breaks rest) :
    kinds (k.text.toList ++ rest) = .keyword k :: kinds rest := by
  obtain ⟨c, cs, hk, hc, hcs⟩ := k.exists_head
  rw [kinds_word hk hc hcs hrest, wordKind, Keyword.ofText?_eq_some_iff.mpr rfl]

end Words

theorem not_space_of_isDigit {c : Char} (h : c.isDigit = true) : isSpace c = false := by
  simp only [isSpace, Bool.or_eq_false_iff, beq_eq_false_iff_ne]
  refine ⟨⟨⟨?_, ?_⟩, ?_⟩, ?_⟩ <;> rintro rfl <;> revert h <;> decide

end Reckoner.Token
