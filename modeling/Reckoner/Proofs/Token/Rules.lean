import Mathlib
import Reckoner.Proofs.Token.Shapes

/-! # The token rules

What a token may look like is said by rules.  A rule is a word, a mark or a regular language of
texts, and says nothing of how a line is scanned.  The token at the front of a text is the longest
text there that some rule matches; what is spelled like a reserved word is that word.
-/
namespace Reckoner.Token

/-! ### The rules -/

/-- The texts that a token rule matches, and what a token of such a text is. -/
inductive Rule : List Char → Kind → Prop where
  | keyword (k : Keyword) : Rule k.text.toList (.keyword k)
  | mark (m : Mark) : Rule m.text.toList (.mark m)
  | number {n : NumberText} (h : n.IsNumber) : Rule n.text (.number n.value)
  | identifier {cs : List Char} (h : cs ∈ Shape.word) : Rule cs (.identifier (String.ofList cs))

/-- No rule matches a text at the front. -/
def Unmatched (cs : List Char) : Prop :=
  ∀ text kind, text <+: cs → ¬ Rule text kind

/-- The longest text at the front that a rule matches, and what its token is: of two rules that
match this text, one has a reserved word, which wins. -/
structure Longest (cs text : List Char) (kind : Kind) : Prop where
  front : text <+: cs
  rule : Rule text kind
  longest : ∀ text' kind', text' <+: cs → Rule text' kind' → text'.length ≤ text.length
  reserved : ∀ k, Rule text (.keyword k) → kind = .keyword k

/-! ### The longest mark -/

theorem front_of_markOf? {cs : List Char} {m : Mark} (h : markOf? cs = some m) :
    m.text.toList <+: cs := by
  unfold markOf? at h
  split at h
  case h_18 => cases h
  all_goals
    cases h
    exact ⟨_, rfl⟩

/-- Where no mark is found, none of those stands that may also start a longer one. -/
theorem ne_cons_of_markOf? {cs : List Char} (h : markOf? cs = none) (rest : List Char) :
    cs ≠ '=' :: rest ∧ cs ≠ '<' :: rest ∧ cs ≠ '>' :: rest ∧ cs ≠ '-' :: rest := by
  unfold markOf? at h
  split at h
  case h_18 =>
    exact ⟨‹∀ tail, cs = '=' :: tail → False› rest, ‹∀ tail, cs = '<' :: tail → False› rest,
      ‹∀ tail, cs = '>' :: tail → False› rest, ‹∀ tail, cs = '-' :: tail → False› rest⟩
  all_goals cases h

theorem isSome_markOf? (m : Mark) (rest : List Char) :
    (markOf? (m.text.toList ++ rest)).isSome = true := by
  cases hm : markOf? (m.text.toList ++ rest) with
  | some found => rfl
  | none =>
    obtain ⟨hassign, hless, hgreater, hminus⟩ := ne_cons_of_markOf? hm rest
    cases m
    case assign => exact absurd rfl hassign
    case less => exact absurd rfl hless
    case greater => exact absurd rfl hgreater
    case minus => exact absurd rfl hminus
    all_goals cases hm

/-- A mark of two characters is found wherever it stands. -/
theorem markOf?_of_two {m : Mark} (h : 1 < m.text.toList.length) (rest : List Char) :
    markOf? (m.text.toList ++ rest) = some m := by
  cases m
  case arrow | equal | notEqual | lessOrEqual | greaterOrEqual => rfl
  all_goals exact absurd h (by decide)

theorem Mark.length_pos (m : Mark) : 0 < m.text.toList.length := by
  cases m <;> decide

/-- Of the marks at the front the longest is found. -/
theorem exists_markOf? {cs : List Char} {m : Mark} (h : m.text.toList <+: cs) :
    ∃ m', markOf? cs = some m' ∧ m.text.toList.length ≤ m'.text.toList.length := by
  obtain ⟨rest, rfl⟩ := h
  by_cases htwo : 1 < m.text.toList.length
  · exact ⟨m, markOf?_of_two htwo rest, le_rfl⟩
  · obtain ⟨m', hm'⟩ := Option.isSome_iff_exists.mp (isSome_markOf? m rest)
    exact ⟨m', hm', (Nat.not_lt.mp htwo).trans m'.length_pos⟩

/-! ### What a matched text looks like -/

theorem Keyword.word (k : Keyword) : k.text.toList ∈ Shape.word :=
  Shape.mem_word.mpr k.exists_head

namespace Rule

variable {c : Char} {cs text : List Char} {kind : Kind}

/-- The first character of a text tells which rules may match it. -/
theorem cases_head (h : Rule text kind) : ∃ c cs, text = c :: cs ∧
    ((c.isDigit = true ∧ ∃ n : NumberText, n.IsNumber ∧ n.text = text) ∨
      (isWordStart c = true ∧ text ∈ Shape.word) ∨
      c.isDigit = false ∧ isWordStart c = false ∧ isSpace c = false ∧
        ∃ m : Mark, m.text.toList = text) := by
  cases h with
  | keyword k =>
    obtain ⟨c, cs, hk, hc, hcs⟩ := k.exists_head
    exact ⟨c, cs, hk, .inr (.inl ⟨hc, k.word⟩)⟩
  | mark m =>
    obtain ⟨c, cs, hm, hspace, hdigit, hword⟩ := m.exists_head
    exact ⟨c, cs, hm, .inr (.inr ⟨hdigit, hword, hspace, m, rfl⟩)⟩
  | @number n hn =>
    obtain ⟨c, cs, htext, hc⟩ := hn.exists_head
    exact ⟨c, cs, htext, .inl ⟨hc, n, hn, rfl⟩⟩
  | identifier hword =>
    obtain ⟨c, cs, rfl, hc, -⟩ := Shape.mem_word.mp hword
    exact ⟨c, cs, rfl, .inr (.inl ⟨hc, hword⟩)⟩

theorem ne_nil (h : Rule text kind) : text ≠ [] := by
  obtain ⟨c, cs, rfl, -⟩ := h.cases_head
  exact List.cons_ne_nil c cs

theorem not_space_head (h : Rule (c :: cs) kind) : isSpace c = false := by
  obtain ⟨_, _, heq, h⟩ := h.cases_head
  cases heq
  rcases h with ⟨hc, -⟩ | ⟨hc, -⟩ | ⟨-, -, hc, -⟩
  · exact not_space_of_isDigit hc
  · exact (not_space_not_digit hc).1
  · exact hc

theorem exists_number (h : Rule (c :: cs) kind) (hc : c.isDigit = true) :
    ∃ n : NumberText, n.IsNumber ∧ n.text = c :: cs := by
  obtain ⟨_, _, heq, h⟩ := h.cases_head
  cases heq
  rcases h with ⟨-, hn⟩ | ⟨hword, -⟩ | ⟨hdigit, -⟩
  · exact hn
  · rw [(not_space_not_digit hword).2] at hc
    cases hc
  · rw [hdigit] at hc
    cases hc

theorem word (h : Rule (c :: cs) kind) (hc : isWordStart c = true) : c :: cs ∈ Shape.word := by
  obtain ⟨_, _, heq, h⟩ := h.cases_head
  cases heq
  rcases h with ⟨hdigit, -⟩ | ⟨-, hword⟩ | ⟨-, hnot, -⟩
  · rw [(not_space_not_digit hc).2] at hdigit
    cases hdigit
  · exact hword
  · rw [hnot] at hc
    cases hc

theorem exists_mark (h : Rule (c :: cs) kind) (hdigit : c.isDigit = false)
    (hword : isWordStart c = false) : ∃ m : Mark, m.text.toList = c :: cs := by
  obtain ⟨_, _, heq, h⟩ := h.cases_head
  cases heq
  rcases h with ⟨hc, -⟩ | ⟨hc, -⟩ | ⟨-, -, -, hm⟩
  · rw [hdigit] at hc
    cases hc
  · rw [hword] at hc
    cases hc
  · exact hm

end Rule

/-! ### The token at the front -/

section Front

variable {c : Char} {cs text : List Char} {kind : Kind}

theorem Rule.exists_tail (h : Rule text kind) (hfront : text <+: c :: cs) :
    ∃ tail, text = c :: tail := by
  obtain ⟨d, tail, rfl⟩ := List.exists_cons_of_ne_nil h.ne_nil
  rw [(List.cons_prefix_cons.mp hfront).1]
  exact ⟨tail, rfl⟩

theorem Rule.eq_keyword {k : Keyword} (h : Rule text (.keyword k)) : text = k.text.toList := by
  cases h
  rfl

theorem Rule.isWordStart {k : Keyword} (h : Rule (c :: cs) (.keyword k)) :
    isWordStart c = true := by
  obtain ⟨d, ds, hk, hd, -⟩ := k.exists_head
  rw [← h.eq_keyword] at hk
  cases hk
  exact hd

theorem ofText?_toList (k : Keyword) :
    Keyword.ofText? (String.ofList k.text.toList) = some k := by
  rw [String.ofList_toList]
  exact Keyword.ofText?_eq_some_iff.mpr rfl

theorem rule_wordKind (h : text ∈ Shape.word) : Rule text (wordKind (String.ofList text)) := by
  unfold wordKind
  split
  · rename_i k hk
    have htext : text = k.text.toList := by
      rw [← Keyword.ofText?_eq_some_iff.mp hk, String.toList_ofList]
    rw [htext]
    exact .keyword k
  · exact .identifier h

theorem wordKind_of_keyword {k : Keyword} (h : Rule text (.keyword k)) :
    wordKind (String.ofList text) = .keyword k := by
  rw [h.eq_keyword, wordKind, ofText?_toList]

theorem longest_number (hc : c.isDigit = true) : Longest (c :: cs)
    (NumberText.read (c :: cs)).text (.number (NumberText.read (c :: cs)).value) := by
  have hnumber : (NumberText.read (c :: cs)).IsNumber :=
    NumberText.isNumber_read (by simp [digitsOf, hc])
  have hfront := NumberText.read_front (c :: cs)
  refine ⟨hfront, .number hnumber, fun text' kind' hfront' hrule => ?_, fun k hk => ?_⟩
  · obtain ⟨tail, rfl⟩ := hrule.exists_tail hfront'
    obtain ⟨n, hn, htext⟩ := hrule.exists_number hc
    obtain ⟨rest, hrest⟩ := hfront'
    rw [← hrest, ← htext]
    exact NumberText.length_le_read hn rest
  · obtain ⟨tail, htail⟩ := hk.exists_tail hfront
    rw [htail] at hk
    rw [(not_space_not_digit hk.isWordStart).2] at hc
    cases hc

theorem longest_word (hc : isWordStart c = true) : Longest (c :: cs)
    ((c :: cs).takeWhile isWordPart)
    (wordKind (String.ofList ((c :: cs).takeWhile isWordPart))) := by
  have hpart := isWordPart_of_isWordStart hc
  have hword : (c :: cs).takeWhile isWordPart ∈ Shape.word := by
    rw [List.takeWhile_cons_of_pos hpart]
    exact Shape.mem_word.mpr ⟨c, _, rfl, hc, List.all_takeWhile⟩
  refine ⟨List.takeWhile_prefix _, rule_wordKind hword, fun text' kind' hfront hrule => ?_,
    fun k hk => wordKind_of_keyword hk⟩
  obtain ⟨tail, rfl⟩ := hrule.exists_tail hfront
  obtain ⟨d, ds, heq, -, hall⟩ := Shape.mem_word.mp (hrule.word hc)
  cases heq
  obtain ⟨rest, hrest⟩ := hfront
  rw [← hrest, List.takeWhile_append_of_pos (by simpa [hpart] using hall), List.length_append]
  exact Nat.le_add_right _ _

theorem longest_mark {m : Mark} (hdigit : c.isDigit = false) (hword : isWordStart c = false)
    (hm : markOf? (c :: cs) = some m) : Longest (c :: cs) m.text.toList (.mark m) := by
  refine ⟨front_of_markOf? hm, .mark m, fun text' kind' hfront hrule => ?_, fun k hk => ?_⟩
  · obtain ⟨tail, rfl⟩ := hrule.exists_tail hfront
    obtain ⟨m', hm'⟩ := hrule.exists_mark hdigit hword
    rw [← hm'] at hfront ⊢
    obtain ⟨m'', hm'', hlength⟩ := exists_markOf? hfront
    cases hm.symm.trans hm''
    exact hlength
  · obtain ⟨tail, htail⟩ := hk.exists_tail (front_of_markOf? hm)
    rw [htail] at hk
    rw [hk.isWordStart] at hword
    cases hword

/-- The scanner takes the longest text that a rule matches. -/
theorem longest_of_lexeme? (h : lexeme? cs = some (kind, text)) : Longest cs text kind := by
  cases cs with
  | nil => cases h
  | cons c cs =>
    simp only [lexeme?] at h
    split at h
    · rename_i hc
      cases h
      exact longest_number hc
    · rename_i hdigit
      split at h
      · rename_i hc
        cases h
        exact longest_word hc
      · rename_i hword
        obtain ⟨m, hm, heq⟩ := Option.map_eq_some_iff.mp h
        cases heq
        exact longest_mark (Bool.eq_false_iff.mpr hdigit) (Bool.eq_false_iff.mpr hword) hm

/-- The scanner finds a token wherever a rule matches something. -/
theorem unmatched_of_lexeme? (h : lexeme? cs = none) : Unmatched cs := by
  intro text kind hfront hrule
  cases cs with
  | nil => exact hrule.ne_nil (List.prefix_nil.mp hfront)
  | cons c cs =>
    simp only [lexeme?] at h
    split at h
    · cases h
    · rename_i hdigit
      split at h
      · cases h
      · rename_i hword
        obtain ⟨tail, rfl⟩ := hrule.exists_tail hfront
        obtain ⟨m, hm⟩ := hrule.exists_mark (Bool.eq_false_iff.mpr hdigit)
          (Bool.eq_false_iff.mpr hword)
        rw [← hm] at hfront
        obtain ⟨m', hm', -⟩ := exists_markOf? hfront
        rw [hm'] at h
        cases h

/-- A text that a rule matches is one token when it stands alone. -/
theorem lexeme?_of_rule (h : Rule text kind)
    (hreserved : ∀ k, Rule text (.keyword k) → kind = .keyword k) :
    lexeme? text = some (kind, text) := by
  have hwords : text ∈ Shape.word → lexeme? text = some (wordKind (String.ofList text), text) := by
    intro hword
    obtain ⟨c, cs, rfl, hc, hcs⟩ := Shape.mem_word.mp hword
    have htake : (c :: cs).takeWhile isWordPart = c :: cs :=
      List.takeWhile_eq_self_iff.mpr (by simpa [isWordPart_of_isWordStart hc] using hcs)
    simp [lexeme?, (not_space_not_digit hc).2, hc, htake]
  cases h with
  | keyword k => rw [hwords k.word, wordKind_of_keyword (.keyword k)]
  | mark m => cases m <;> rfl
  | @number n hn =>
    obtain ⟨c, cs, htext, hc⟩ := hn.exists_head
    have hread : NumberText.read (c :: cs) = n := htext ▸ NumberText.read_text hn
    rw [htext]
    simp only [lexeme?, hc, if_true, hread, htext]
  | identifier hword =>
    rw [hwords hword]
    cases hk : Keyword.ofText? (String.ofList text) with
    | none => rw [wordKind, hk]
    | some k =>
      have htext : text = k.text.toList := by
        rw [← Keyword.ofText?_eq_some_iff.mp hk, String.toList_ofList]
      cases hreserved k (htext ▸ .keyword k)

/-- There is at most one longest match, and it makes one token. -/
theorem Longest.unique {text' : List Char} {kind' : Kind} (h : Longest cs text kind)
    (h' : Longest cs text' kind') : kind = kind' ∧ text = text' := by
  have hlength : text.length = text'.length :=
    Nat.le_antisymm (h'.longest _ _ h.front h.rule) (h.longest _ _ h'.front h'.rule)
  have htext : text = text' :=
    (List.prefix_of_prefix_length_le h.front h'.front hlength.le).eq_of_length hlength
  subst htext
  have hkind := (lexeme?_of_rule h.rule h.reserved).symm.trans
    (lexeme?_of_rule h'.rule h'.reserved)
  cases hkind
  exact ⟨rfl, rfl⟩

theorem lexeme?_eq_some_iff : lexeme? cs = some (kind, text) ↔ Longest cs text kind := by
  refine ⟨longest_of_lexeme?, fun h => ?_⟩
  cases hcs : lexeme? cs with
  | none => exact absurd h.rule (unmatched_of_lexeme? hcs _ _ h.front)
  | some found =>
    obtain ⟨hkind, htext⟩ := h.unique (longest_of_lexeme? hcs)
    rw [hkind, htext]

theorem lexeme?_eq_none_iff : lexeme? cs = none ↔ Unmatched cs := by
  refine ⟨unmatched_of_lexeme?, fun h => ?_⟩
  cases hcs : lexeme? cs with
  | none => rfl
  | some found =>
    have hfound := longest_of_lexeme? hcs
    exact absurd hfound.rule (h _ _ hfound.front)

end Front

end Reckoner.Token
