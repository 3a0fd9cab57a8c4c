import Mathlib
import Reckoner.Proofs.Token.Scanning

/-! # The shapes of words and numbers

Words and numbers are regular languages of texts.  A number is read part by part, as far as it
goes: what follows it is left, unless that could belong to it.
-/
namespace Reckoner.Token

open Computability

/-! ### Languages of texts -/

namespace Shape

def one (p : Char → Bool) : Language Char :=
  {cs | ∃ c, p c = true ∧ cs = [c]}

/-- One character of a class, or more of them. -/
def row (p : Char → Bool) : Language Char :=
  one p * (one p)∗

def fraction : Language Char :=
  1 + one (· == '.') * row Char.isDigit

/-- A small or capital `e`, perhaps a sign, and digits, or nothing. -/
def exponent : Language Char :=
  1 + one (fun c => c == 'e' || c == 'E') * (1 + one (fun c => c == '+' || c == '-')) *
    row Char.isDigit

def word : Language Char :=
  one isWordStart * (one isWordPart)∗

theorem mem_one_star {p : Char → Bool} {cs : List Char} :
    cs ∈ (one p)∗ ↔ cs.all p = true := by
  rw [Language.mem_kstar, List.all_eq_true]
  constructor
  · rintro ⟨parts, rfl, hparts⟩ c hc
    obtain ⟨part, hpart, hc⟩ := List.mem_flatten.mp hc
    obtain ⟨d, hd, rfl⟩ := hparts part hpart
    rwa [List.mem_singleton.mp hc]
  · intro h
    refine ⟨cs.map fun c => [c], by rw [← List.flatMap_def, List.flatMap_singleton'], ?_⟩
    intro part hpart
    obtain ⟨c, hc, rfl⟩ := List.mem_map.mp hpart
    exact ⟨c, h c hc, rfl⟩

theorem mem_one_mul {p : Char → Bool} {l : Language Char} {cs : List Char} :
    cs ∈ one p * l ↔ ∃ c rest, cs = c :: rest ∧ p c = true ∧ rest ∈ l := by
  rw [Language.mem_mul]
  constructor
  · rintro ⟨_, ⟨c, hc, rfl⟩, rest, hrest, rfl⟩
    exact ⟨c, rest, rfl, hc, hrest⟩
  · rintro ⟨c, rest, rfl, hc, hrest⟩
    exact ⟨[c], ⟨c, hc, rfl⟩, rest, hrest, rfl⟩

theorem mem_row {p : Char → Bool} {cs : List Char} :
    cs ∈ row p ↔ cs ≠ [] ∧ cs.all p = true := by
  rw [row, mem_one_mul]
  constructor
  · rintro ⟨c, rest, rfl, hc, hrest⟩
    exact ⟨List.cons_ne_nil c rest, by simp [hc, mem_one_star.mp hrest]⟩
  · rintro ⟨hne, hall⟩
    obtain ⟨c, rest, rfl⟩ := List.exists_cons_of_ne_nil hne
    rw [List.all_cons, Bool.and_eq_true] at hall
    exact ⟨c, rest, rfl, hall.1, mem_one_star.mpr hall.2⟩

theorem mem_fraction {cs : List Char} :
    cs ∈ fraction ↔ cs = [] ∨ ∃ ds, cs = '.' :: ds ∧ ds ∈ row Char.isDigit := by
  rw [fraction, Language.mem_add, Language.mem_one, mem_one_mul]
  simp only [beq_iff_eq, ↓existsAndEq, true_and]

theorem mem_exponent {cs : List Char} :
    cs ∈ exponent ↔ cs = [] ∨ ∃ c sign ds, cs = c :: (sign ++ ds) ∧ (c = 'e' ∨ c = 'E') ∧
      (sign = [] ∨ sign = ['+'] ∨ sign = ['-']) ∧ ds ∈ row Char.isDigit := by
  rw [exponent, Language.mem_add, Language.mem_one, mul_assoc, mem_one_mul]
  refine or_congr_right ⟨?_, ?_⟩
  · rintro ⟨c, rest, rfl, hc, hrest⟩
    obtain ⟨sign, hsign, ds, hds, rfl⟩ := Language.mem_mul.mp hrest
    refine ⟨c, sign, ds, rfl, by simpa using hc, ?_, hds⟩
    rcases (Language.mem_add _ _ _).mp hsign with hnone | ⟨d, hd, rfl⟩
    · exact .inl hnone
    · exact .inr (by simpa using hd)
  · rintro ⟨c, sign, ds, rfl, hc, hsign, hds⟩
    refine ⟨c, sign ++ ds, rfl, by simpa using hc, Language.append_mem_mul ?_ hds⟩
    rcases hsign with rfl | rfl | rfl
    · exact .inl rfl
    · exact .inr ⟨'+', rfl, rfl⟩
    · exact .inr ⟨'-', rfl, rfl⟩

theorem mem_word {cs : List Char} :
    cs ∈ word ↔ ∃ c rest, cs = c :: rest ∧ isWordStart c = true ∧ rest.all isWordPart = true := by
  simp only [word, mem_one_mul, mem_one_star]

end Shape

structure NumberText.IsNumber (n : NumberText) : Prop where
  whole : n.whole ∈ Shape.row Char.isDigit
  fraction : n.fraction ∈ Shape.fraction
  exponent : n.exponent ∈ Shape.exponent

/-! ### Reading a number -/

namespace NumberText

variable {f e rest : List Char} {n : NumberText}

theorem digitsOf_append {ds : List Char} (h : ds.all Char.isDigit = true) (rest : List Char) :
    digitsOf (ds ++ rest) = ds ++ digitsOf rest :=
  List.takeWhile_append_of_pos (by simpa using h)

theorem digitsOf_mem {cs : List Char} (h : digitsOf cs ≠ []) :
    digitsOf cs ∈ Shape.row Char.isDigit :=
  Shape.mem_row.mpr ⟨h, List.all_takeWhile⟩

/-- A fraction is read whole, unless it may go on with more digits. -/
theorem fractionOf_append (hf : f ∈ Shape.fraction)
    (hrest : ∀ c ∈ rest.head?, c.isDigit = false ∧ c ≠ '.') : fractionOf (f ++ rest) = f := by
  rcases Shape.mem_fraction.mp hf with rfl | ⟨ds, rfl, hds⟩
  · cases rest with
    | nil => rfl
    | cons c rest =>
      have hdot := (hrest c rfl).2
      rw [List.nil_append]
      unfold fractionOf
      split
      · simp_all
      · rfl
  · obtain ⟨hne, hall⟩ := Shape.mem_row.mp hds
    have hdigits : digitsOf (ds ++ rest) = ds :=
      takeWhile_append_of_head hall fun c hc => (hrest c hc).1
    simp [fractionOf, hdigits, hne]

/-- At least the digits of a fraction are read. -/
theorem fractionOf_point {ds : List Char} (hds : ds ∈ Shape.row Char.isDigit) (rest : List Char) :
    fractionOf ('.' :: (ds ++ rest)) = '.' :: (ds ++ digitsOf rest) := by
  obtain ⟨hne, hall⟩ := Shape.mem_row.mp hds
  simp [fractionOf, digitsOf_append hall, hne]

theorem exponentOf_append (he : e ∈ Shape.exponent) (hne : e ≠ []) (rest : List Char) :
    exponentOf (e ++ rest) = e ++ digitsOf rest := by
  obtain ⟨c, sign, ds, rfl, hc, hsign, hds⟩ := (Shape.mem_exponent.mp he).resolve_left hne
  obtain ⟨hds, hall⟩ := Shape.mem_row.mp hds
  have hread : signOf (sign ++ (ds ++ rest)) = sign := by
    obtain ⟨d, ds, rfl⟩ := List.exists_cons_of_ne_nil hds
    rw [List.all_cons, Bool.and_eq_true] at hall
    rcases hsign with rfl | rfl | rfl
    · simp only [List.nil_append, List.cons_append]
      unfold signOf
      split
      · simp_all
      · simp_all
      · rfl
    · rfl
    · rfl
  have hdigits : digitsOf (ds ++ rest) ≠ [] := by simp [digitsOf_append hall, hds]
  have hletter : (c == 'e' || c == 'E') = true := by simpa using hc
  simp [exponentOf, hread, digitsOf_append hall, hletter, hds]

theorem exponentOf_of_breaks (h : Breaks rest) : exponentOf rest = [] := by
  cases rest with
  | nil => rfl
  | cons c rest =>
    have hpart := (h c rfl).1
    have hletter : (c == 'e' || c == 'E') = false := by
      simp only [Bool.or_eq_false_iff, beq_eq_false_iff_ne]
      constructor <;> rintro rfl <;> revert hpart <;> decide
    simp [exponentOf, hletter]

theorem exponentOf_append_of_breaks (he : e ∈ Shape.exponent) (hrest : Breaks rest) :
    exponentOf (e ++ rest) = e := by
  by_cases hne : e = []
  · rw [hne, List.nil_append, exponentOf_of_breaks hrest]
  · have hdigits : digitsOf ([] ++ rest) = [] := takeWhile_append_of_head rfl hrest.not_isDigit
    rw [List.nil_append] at hdigits
    rw [exponentOf_append he hne, hdigits, List.append_nil]

/-- An exponent starts with neither a digit nor a point, so it ends a fraction. -/
theorem head_of_exponent (he : e ∈ Shape.exponent)
    (hend : e = [] → ∀ c ∈ rest.head?, c.isDigit = false ∧ c ≠ '.') :
    ∀ c ∈ (e ++ rest).head?, c.isDigit = false ∧ c ≠ '.' := by
  rcases Shape.mem_exponent.mp he with rfl | ⟨c, sign, ds, rfl, hc, -⟩
  · exact hend rfl
  · rcases hc with rfl | rfl
    · simp
    · simp

theorem head_of_fraction (hf : f ∈ Shape.fraction)
    (hrest : ∀ c ∈ rest.head?, c.isDigit = false) : ∀ c ∈ (f ++ rest).head?, c.isDigit = false := by
  rcases Shape.mem_fraction.mp hf with rfl | ⟨ds, rfl, -⟩
  · exact hrest
  · simp

/-- A number is read part by part, if it has an exponent or nothing carries it on. -/
theorem read_append (h : n.IsNumber)
    (hend : n.exponent = [] → ∀ c ∈ rest.head?, c.isDigit = false ∧ c ≠ '.') :
    read (n.text ++ rest) = ⟨n.whole, n.fraction, exponentOf (n.exponent ++ rest)⟩ := by
  obtain ⟨w, f, e⟩ := n
  have htail := head_of_exponent h.exponent hend
  have hwhole : digitsOf (w ++ (f ++ (e ++ rest))) = w :=
    takeWhile_append_of_head (Shape.mem_row.mp h.whole).2
      (head_of_fraction h.fraction fun c hc => (htail c hc).1)
  have hfraction : fractionOf (f ++ (e ++ rest)) = f := fractionOf_append h.fraction htail
  have hdrop : (w ++ (f ++ (e ++ rest))).drop (w.length + f.length) = e ++ rest := by
    rw [← List.append_assoc, ← List.length_append, List.drop_left]
  simp only [read, text, List.append_assoc, hwhole, List.drop_left, hfraction, hdrop]

theorem read_of_breaks (h : n.IsNumber) (hrest : Breaks rest) : read (n.text ++ rest) = n := by
  rw [read_append h fun _ c hc => ⟨hrest.not_isDigit c hc, (hrest c hc).2⟩,
    exponentOf_append_of_breaks h.exponent hrest]

theorem read_text (h : n.IsNumber) : read n.text = n := by
  simpa only [List.append_nil] using read_of_breaks h breaks_nil

/-- What is read is at least as long as any number at the front. -/
theorem length_le_read (h : n.IsNumber) (rest : List Char) :
    n.text.length ≤ (read (n.text ++ rest)).text.length := by
  by_cases hne : n.exponent = []
  · obtain ⟨w, f, e⟩ := n
    obtain rfl : e = [] := hne
    have hall := (Shape.mem_row.mp h.whole).2
    rcases Shape.mem_fraction.mp h.fraction with hnone | ⟨ds, hpoint, hds⟩
    · obtain rfl : f = [] := hnone
      simp only [read, text, List.append_nil, digitsOf_append hall, List.length_append]
      omega
    · obtain rfl : f = '.' :: ds := hpoint
      have hwhole : digitsOf (w ++ '.' :: (ds ++ rest)) = w :=
        takeWhile_append_of_head hall (by simp)
      simp only [read, text, List.append_nil, List.append_assoc, List.cons_append, hwhole,
        List.drop_left, fractionOf_point hds, List.length_append, List.length_cons]
      omega
  · rw [read_append h fun he => absurd he hne, exponentOf_append h.exponent hne]
    simp only [text, List.length_append]
    omega

theorem fractionOf_mem (cs : List Char) : fractionOf cs ∈ Shape.fraction := by
  unfold fractionOf
  split
  · split
    · exact .inl rfl
    · rename_i cs hne
      exact Shape.mem_fraction.mpr (.inr ⟨_, rfl, digitsOf_mem (by simpa using hne)⟩)
  · exact .inl rfl

theorem exponentOf_mem (cs : List Char) : exponentOf cs ∈ Shape.exponent := by
  cases cs with
  | nil => exact .inl rfl
  | cons c cs =>
    simp only [exponentOf]
    split
    · rename_i h
      simp only [Bool.and_eq_true, Bool.or_eq_true, beq_iff_eq, Bool.not_eq_true',
        List.isEmpty_eq_false_iff] at h
      refine Shape.mem_exponent.mpr (.inr ⟨c, signOf cs, _, rfl, h.1, ?_, digitsOf_mem h.2⟩)
      unfold signOf
      split
      · exact .inr (.inl rfl)
      · exact .inr (.inr rfl)
      · exact .inl rfl
    · exact .inl rfl

theorem fractionOf_front (cs : List Char) : fractionOf cs <+: cs := by
  unfold fractionOf
  split
  · split
    · exact List.nil_prefix
    · exact List.cons_prefix_cons.mpr ⟨rfl, List.takeWhile_prefix _⟩
  · exact List.nil_prefix

theorem signOf_front (cs : List Char) : signOf cs <+: cs := by
  unfold signOf
  split
  · exact List.prefix_append ['+'] _
  · exact List.prefix_append ['-'] _
  · exact List.nil_prefix

/-- Two parts that follow each other at the front of a text are a front together. -/
theorem front_append {a b cs : List Char} (ha : a <+: cs) (hb : b <+: cs.drop a.length) :
    a ++ b <+: cs := by
  rw [← List.prefix_iff_eq_append.mp ha]
  exact (List.prefix_append_right_inj a).mpr hb

theorem exponentOf_front (cs : List Char) : exponentOf cs <+: cs := by
  cases cs with
  | nil => exact List.nil_prefix
  | cons c cs =>
    simp only [exponentOf]
    split
    · exact List.cons_prefix_cons.mpr
        ⟨rfl, front_append (signOf_front cs) (List.takeWhile_prefix _)⟩
    · exact List.nil_prefix

theorem read_front (cs : List Char) : (read cs).text <+: cs := by
  have hwhole : digitsOf cs <+: cs := List.takeWhile_prefix _
  have hfraction : digitsOf cs ++ fractionOf (cs.drop (digitsOf cs).length) <+: cs :=
    front_append hwhole (fractionOf_front _)
  refine front_append hfraction ?_
  rw [List.length_append]
  exact exponentOf_front _

theorem isNumber_read {cs : List Char} (h : digitsOf cs ≠ []) : (read cs).IsNumber :=
  ⟨digitsOf_mem h, fractionOf_mem _, exponentOf_mem _⟩

end NumberText

theorem NumberText.IsNumber.exists_head {n : NumberText} (h : n.IsNumber) :
    ∃ c cs, n.text = c :: cs ∧ c.isDigit = true := by
  obtain ⟨hne, hall⟩ := Shape.mem_row.mp h.whole
  obtain ⟨c, cs, hwhole⟩ := List.exists_cons_of_ne_nil hne
  rw [hwhole, List.all_cons, Bool.and_eq_true] at hall
  exact ⟨c, cs ++ n.fraction ++ n.exponent, by simp [text, hwhole], hall.1⟩

/-- A number is scanned to its value. -/
theorem kinds_number {n : NumberText} {rest : List Char} (h : n.IsNumber) (hrest : Breaks rest) :
    kinds (n.text ++ rest) = .number n.value :: kinds rest := by
  obtain ⟨c, cs, htext, hc⟩ := h.exists_head
  have hread : NumberText.read (c :: (cs ++ rest)) = n := by
    rw [← List.cons_append, ← htext, NumberText.read_of_breaks h hrest]
  rw [htext, List.cons_append]
  apply kinds_of_lexeme? (not_space_of_isDigit hc)
  simp only [lexeme?, hc, if_true, hread, htext]

end Reckoner.Token
