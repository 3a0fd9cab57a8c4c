import Mathlib
import Reckoner.Command.Parser
import Reckoner.Proofs.Except
import Reckoner.Proofs.Grammar.Basic

/-! # What the parser accepts is a phrase of the grammar

Each parser is sound for a relation of the grammar: the tokens it takes up stand in the relation to
what it gives.  A parser built from others is sound if these are, so the only induction is on how
deep expressions nest.
-/
namespace Reckoner.Grammar

open Reckoner.Expr
open Token (Kind Mark)
open ParseError (fail)

/-- The tokens that a parser takes up stand in a relation to what it gives. -/
def Sound {α : Type} (p : Parser α) (r : List Kind → α → Prop) : Prop :=
  ∀ ⦃ts : List Token⦄ ⦃a : α⦄ ⦃rest : List Token⦄, p ts = .ok (a, rest) →
    ∃ front, ts = front ++ rest ∧ r (front.map Token.kind) a

@[simp] theorem fail_ne_ok {α : Type} (cause : ParseError.Cause) (ts : List Token) (a : α) :
    (fail cause ts : Except ParseError.Failure α) ≠ .ok a := by
  simp only [fail]
  split <;> simp

theorem sound_identifier : Sound parseIdentifier fun ks n => ks = [.identifier n] := by
  intro ts a rest h
  simp only [parseIdentifier] at h
  split at h
  · cases h
    exact ⟨[_], rfl, rfl⟩
  · simp at h

theorem sound_type : Sound parseType TypeName := by
  intro ts a rest h
  simp only [parseType] at h
  split at h
  · cases h
    exact ⟨[_], rfl, .number⟩
  · cases h
    exact ⟨[_], rfl, .boolean⟩
  · simp at h

theorem sound_closing (opening : Span) :
    Sound (parseClosing opening) fun ks _ => ks = [.mark .closing] := by
  intro ts a rest h
  simp only [parseClosing] at h
  split at h
  · cases h
    exact ⟨[_], rfl, rfl⟩
  · simp at h

theorem sound_colon : Sound parseColon fun ks _ => ks = [.mark .colon] := by
  intro ts a rest h
  simp only [parseColon] at h
  split at h
  · cases h
    exact ⟨[_], rfl, rfl⟩
  · simp at h

theorem sound_arrow : Sound parseArrow fun ks _ => ks = [.mark .arrow] := by
  intro ts a rest h
  simp only [parseArrow] at h
  split at h
  · cases h
    exact ⟨[_], rfl, rfl⟩
  · simp at h

theorem sound_parameter : Sound parseParameter Declaration := by
  intro ts p rest h
  simp only [parseParameter, bind_eq_ok_iff] at h
  obtain ⟨⟨n, ts₁⟩, hn, ⟨_, ts₂⟩, hc, ⟨ty, ts₃⟩, ht, h⟩ := h
  cases h
  obtain ⟨front₁, rfl, h₁⟩ := sound_identifier hn
  obtain ⟨front₂, rfl, h₂⟩ := sound_colon hc
  obtain ⟨front₃, rfl, h₃⟩ := sound_type ht
  refine ⟨front₁ ++ (front₂ ++ front₃), by simp, ?_⟩
  simp only [List.map_append, h₁, h₂]
  exact .typed n h₃

section Lists

variable {α : Type} {item : Parser α} {r : List Kind → α → Prop}

theorem sound_items (hitem : Sound item r) (bound : Nat) :
    Sound (parseItems item bound) (Commas r) := by
  induction bound with
  | zero =>
    intro ts as rest h
    simp only [parseItems, bind_eq_ok_iff] at h
    obtain ⟨⟨a, ts'⟩, ha, h⟩ := h
    cases h
    obtain ⟨front, rfl, hr⟩ := hitem ha
    exact ⟨front, rfl, .one hr⟩
  | succ bound ih =>
    intro ts as rest h
    simp only [parseItems, bind_eq_ok_iff] at h
    obtain ⟨⟨a, ts'⟩, ha, h⟩ := h
    obtain ⟨front, rfl, hr⟩ := hitem ha
    dsimp only at h
    split at h
    · rename_i span ts'
      simp only [bind_eq_ok_iff] at h
      obtain ⟨⟨as', ts''⟩, has, h⟩ := h
      cases h
      obtain ⟨front', rfl, hrs⟩ := ih has
      refine ⟨front ++ (⟨.mark .comma, span⟩ :: front'), by simp, ?_⟩
      rw [List.map_append, List.map_cons]
      exact .more hr hrs
    · cases h
      exact ⟨front, rfl, .one hr⟩

theorem sound_list (hitem : Sound item r) (bound : Nat) (opening : Span) :
    Sound (parseList bound item opening) fun ks as =>
      ∃ ks', ks = ks' ++ [.mark .closing] ∧ Listed r ks' as := by
  intro ts as rest h
  simp only [parseList] at h
  split at h
  · cases h
    exact ⟨[_], rfl, [], rfl, .none⟩
  · simp only [bind_eq_ok_iff] at h
    obtain ⟨⟨as', ts₁⟩, has, ⟨_, ts₂⟩, hc, h⟩ := h
    cases h
    obtain ⟨front₁, rfl, h₁⟩ := sound_items hitem bound has
    obtain ⟨front₂, rfl, h₂⟩ := sound_closing opening hc
    refine ⟨front₁ ++ front₂, by simp, _, ?_, .some h₁⟩
    rw [List.map_append, h₂]

end Lists

theorem sound_negation {primary : Parser Expr} (h : Sound primary (Phrase .primary)) :
    Sound (parseNegation primary) (Phrase .negation) := by
  intro ts
  -- The minus signs are the only tokens that the recursion takes off.
  induction ts with
  | nil =>
    intro e rest he
    obtain ⟨front, hts, hp⟩ := h (by simpa [parseNegation] using he)
    exact ⟨front, hts, .plain hp⟩
  | cons t ts ih =>
    intro e rest he
    unfold parseNegation at he
    split at he
    · rename_i span rest' heq
      cases heq
      simp only [bind_eq_ok_iff] at he
      obtain ⟨⟨operand, ts'⟩, hop, he⟩ := he
      cases he
      obtain ⟨front, rfl, hp⟩ := ih hop
      refine ⟨⟨.mark .minus, span⟩ :: front, rfl, ?_⟩
      dsimp only
      simp only [negate]
      split
      · exact .negativeNumber hp
      · rename_i hne
        exact .negative hp fun x hx => hne x hx
    · obtain ⟨front, hts, hp⟩ := h he
      exact ⟨front, hts, .plain hp⟩

/-- The operators by which the parser chains the operands of a form. -/
def Form.operator? : Form → Mark → Option Operator
  | equality => equalityOperator?
  | comparison => comparisonOperator?
  | sum => sumOperator?
  | product => productOperator?
  | _ => fun _ => none

/-- The parser knows the operators of the grammar and no others. -/
theorem operator?_eq_some_iff {f : Form} {m : Mark} {op : Operator} :
    f.operator? m = some op ↔ Links f m op := by
  constructor
  · intro h
    cases f <;> cases m <;> cases h <;> constructor
  · intro h
    cases h <;> rfl

section Levels

variable {f g : Form} {operand : Parser Expr}

theorem sound_operators (hg : f.operand? = some g) (hop : Sound operand (Phrase g)) (bound : Nat)
    (left : Expr) :
    Sound (parseOperators f.operator? operand bound left) fun ks e =>
      ∃ links, Tail f ks links ∧ e = chained left links := by
  induction bound generalizing left with
  | zero =>
    intro ts e rest h
    cases h
    exact ⟨[], rfl, [], .nil f, rfl⟩
  | succ bound ih =>
    intro ts e rest h
    rcases ts with _ | ⟨⟨kind, span⟩, ts⟩
    · cases h
      exact ⟨[], rfl, [], .nil f, rfl⟩
    · cases kind with
      | mark m =>
        simp only [parseOperators] at h
        split at h
        · rename_i op hm
          simp only [bind_eq_ok_iff] at h
          obtain ⟨⟨right, ts'⟩, hr, h⟩ := h
          obtain ⟨front, rfl, hp⟩ := hop hr
          obtain ⟨front', rfl, links, htail, rfl⟩ := ih (.binary op left right) h
          refine ⟨⟨.mark m, span⟩ :: (front ++ front'), by simp, (op, right) :: links, ?_, rfl⟩
          rw [List.map_cons, List.map_append]
          exact .cons hg (operator?_eq_some_iff.mp hm) hp htail
        · cases h
          exact ⟨[], rfl, [], .nil f, rfl⟩
      | keyword _ | number _ | identifier _ | invalid =>
        cases h
        exact ⟨[], rfl, [], .nil f, rfl⟩

theorem sound_level (hg : f.operand? = some g) (hop : Sound operand (Phrase g)) (bound : Nat) :
    Sound (parseLevel bound f.operator? operand) (Phrase f) := by
  intro ts e rest h
  simp only [parseLevel, bind_eq_ok_iff] at h
  obtain ⟨⟨left, ts'⟩, hl, h⟩ := h
  obtain ⟨front, rfl, hp⟩ := hop hl
  obtain ⟨front', rfl, links, htail, rfl⟩ := sound_operators hg hop bound left h
  refine ⟨front ++ front', by simp, ?_⟩
  rw [List.map_append]
  exact .chain hg hp htail

end Levels

section Nested

variable {nested : Parser Expr}

theorem sound_function (hn : Sound nested (Phrase .expression)) (bound : Nat) (opening : Span) :
    Sound (parseFunction bound nested opening) fun ks e =>
      Phrase .expression (.mark .opening :: ks) e := by
  intro ts e rest h
  simp only [parseFunction, bind_eq_ok_iff] at h
  obtain ⟨⟨ps, ts₁⟩, hps, ⟨_, ts₂⟩, ha, ⟨body, ts₃⟩, hb, h⟩ := h
  cases h
  obtain ⟨front₁, rfl, ks, h₁, hlist⟩ := sound_list sound_parameter bound opening hps
  obtain ⟨front₂, rfl, h₂⟩ := sound_arrow ha
  obtain ⟨front₃, rfl, h₃⟩ := hn hb
  refine ⟨front₁ ++ (front₂ ++ front₃), by simp, ?_⟩
  simp only [List.map_append, h₁, h₂, List.append_assoc, List.cons_append, List.nil_append]
  exact .function hlist h₃

theorem sound_primary (hn : Sound nested (Phrase .expression)) (bound : Nat) :
    Sound (parsePrimary bound nested) (Phrase .primary) := by
  intro ts e rest h
  simp only [parsePrimary] at h
  split at h
  · cases h
    exact ⟨[_], rfl, .number _⟩
  · cases h
    exact ⟨[_], rfl, .true⟩
  · cases h
    exact ⟨[_], rfl, .false⟩
  · cases h
    exact ⟨[_], rfl, .last⟩
  · rename_i f span opening rest'
    simp only [bind_eq_ok_iff] at h
    obtain ⟨⟨args, ts'⟩, hargs, h⟩ := h
    cases h
    obtain ⟨front, rfl, ks, hks, hlist⟩ := sound_list hn bound opening hargs
    refine ⟨⟨.identifier f, span⟩ :: ⟨.mark .opening, opening⟩ :: front, rfl, ?_⟩
    rw [List.map_cons, List.map_cons, hks]
    exact .call f hlist
  · cases h
    exact ⟨[_], rfl, .name _⟩
  · rename_i opening rest'
    simp only [bind_eq_ok_iff] at h
    obtain ⟨⟨inner, ts₁⟩, hi, ⟨_, ts₂⟩, hc, h⟩ := h
    cases h
    obtain ⟨front₁, rfl, h₁⟩ := hn hi
    obtain ⟨front₂, rfl, h₂⟩ := sound_closing opening hc
    refine ⟨⟨.mark .opening, opening⟩ :: (front₁ ++ front₂), by simp, ?_⟩
    rw [List.map_cons, List.map_append, h₂]
    exact .parenthesized h₁
  · simp at h

theorem sound_equality (hn : Sound nested (Phrase .expression)) (bound : Nat) :
    Sound (parseEquality bound nested) (Phrase .equality) := by
  have hproduct := sound_level (f := .product) rfl (sound_negation (sound_primary hn bound)) bound
  have hsum := sound_level (f := .sum) rfl hproduct bound
  have hcomparison := sound_level (f := .comparison) rfl hsum bound
  exact sound_level (f := .equality) rfl hcomparison bound

theorem sound_with (hn : Sound nested (Phrase .expression)) (bound : Nat) :
    Sound (parseWith bound nested) (Phrase .expression) := by
  intro ts e rest h
  simp only [parseWith] at h
  split at h
  · rename_i opening rest'
    split at h
    · obtain ⟨front, rfl, hp⟩ := sound_function hn bound opening h
      exact ⟨⟨.mark .opening, opening⟩ :: front, rfl, hp⟩
    · obtain ⟨front, hts, hp⟩ := sound_equality hn bound h
      exact ⟨front, hts, .operation hp⟩
  · obtain ⟨front, hts, hp⟩ := sound_equality hn bound h
    exact ⟨front, hts, .operation hp⟩

end Nested

theorem sound_within (depth : Nat) : Sound (parseWithin depth) (Phrase .expression) := by
  induction depth with
  | zero =>
    intro ts e rest h
    simp [parseWithin] at h
  | succ depth ih => exact sound_with ih depth

/-- What is parsed as an expression is a phrase that denotes it. -/
theorem sound_parse : Sound Expr.parse (Phrase .expression) :=
  fun _ _ _ h => sound_within _ h

theorem sound_assign : Sound Command.parseAssign fun ks _ => ks = [.mark .assign] := by
  intro ts a rest h
  simp only [Command.parseAssign] at h
  split at h
  · cases h
    exact ⟨[_], rfl, rfl⟩
  · simp at h

theorem sound_front : Sound Command.parseFront Sentence := by
  intro ts c rest h
  simp only [Command.parseFront] at h
  split at h
  · rename_i span rest'
    simp only [bind_eq_ok_iff] at h
    obtain ⟨⟨n, ts₁⟩, hn, ⟨_, ts₂⟩, ha, ⟨e, ts₃⟩, he, h⟩ := h
    cases h
    obtain ⟨front₁, rfl, h₁⟩ := sound_identifier hn
    obtain ⟨front₂, rfl, h₂⟩ := sound_assign ha
    obtain ⟨front₃, rfl, h₃⟩ := sound_parse he
    refine ⟨⟨.keyword .letWord, span⟩ :: (front₁ ++ (front₂ ++ front₃)), by simp, ?_⟩
    simp only [List.map_cons, List.map_append, h₁, h₂]
    exact .define n h₃
  · rename_i span rest'
    simp only [bind_eq_ok_iff] at h
    obtain ⟨⟨e, ts'⟩, he, h⟩ := h
    cases h
    obtain ⟨front, rfl, hp⟩ := sound_parse he
    exact ⟨⟨.keyword .explain, span⟩ :: front, rfl, .explain hp⟩
  · cases h
    exact ⟨[_], rfl, .symbols⟩
  · cases h
    exact ⟨[_], rfl, .exit⟩
  · cases h
    exact ⟨[_], rfl, .quit⟩
  · simp only [bind_eq_ok_iff] at h
    obtain ⟨⟨e, ts'⟩, he, h⟩ := h
    cases h
    obtain ⟨front, rfl, hp⟩ := sound_parse he
    exact ⟨front, rfl, .expression hp⟩

/-- What is parsed as a command is a sentence that denotes it. -/
theorem sentence_of_parseTokens {ts : List Token} {c : Command}
    (h : Command.parseTokens ts = .ok c) : Sentence (ts.map Token.kind) c := by
  simp only [Command.parseTokens, bind_eq_ok_iff] at h
  obtain ⟨⟨c', rest⟩, hc, h⟩ := h
  obtain ⟨front, rfl, hs⟩ := sound_front hc
  cases rest with
  | nil =>
    cases h
    simpa using hs
  | cons t rest => simp at h

end Reckoner.Grammar
