import Mathlib
import Reckoner.Proofs.Grammar.Completeness

/-! # What was read before an error can be completed

Where a parser fails, the tokens that it has read by then are the front of a phrase: something can be put
in the place of the tokens that are left.  The character that an error calls invalid is the one that it
stops at.
-/
namespace Reckoner

open ParseError (Failure fail)

/-- A failure gives an invalid character as its cause exactly if it stops at one. -/
def ParseError.Failure.Fair (failure : Failure) : Prop :=
  failure.cause = .invalidCharacter ↔ failure.rest.head?.map Token.kind = some .invalid

namespace Grammar

open Reckoner.Expr
open Token (Kind Mark)

variable {α β : Type} {ts : List Token} {failure : Failure}

/-- A failure that leaves some of the tokens, where those before them can be completed to a phrase. -/
def Blames (r : List Kind → α → Prop) (ts : List Token) (failure : Failure) : Prop :=
  failure.Fair ∧ ∃ front, ts = front ++ failure.rest ∧ ∃ ks a, r (front.map Token.kind ++ ks) a

/-- A parser whose failures leave the tokens after the front of a phrase. -/
def Blaming (p : Parser α) (r : List Kind → β → Prop) : Prop :=
  ∀ ⦃ts : List Token⦄ ⦃failure : Failure⦄, p ts = .error failure → Blames r ts failure

namespace Blames

variable {r : List Kind → α → Prop} {q : List Kind → β → Prop}

/-- What completes a part of a phrase completes the phrase, if there is an end for it. -/
theorem extend (front : List Token) (h : Blames r ts failure)
    (hend : ∀ ks a, r ks a → ∃ ks' b, q (front.map Token.kind ++ (ks ++ ks')) b) :
    Blames q (front ++ ts) failure := by
  obtain ⟨hfair, front', rfl, ks, a, hr⟩ := h
  obtain ⟨ks', b, hq⟩ := hend _ _ hr
  refine ⟨hfair, front ++ front', (List.append_assoc _ _ _).symm, ks ++ ks', b, ?_⟩
  rw [List.map_append]
  simpa using hq

/-- What completes the last part of a phrase completes the phrase. -/
theorem last (front : List Token) (h : Blames r ts failure)
    (hend : ∀ ks a, r ks a → ∃ b, q (front.map Token.kind ++ ks) b) :
    Blames q (front ++ ts) failure := by
  refine h.extend front fun ks a hr => ?_
  obtain ⟨b, hq⟩ := hend ks a hr
  exact ⟨[], b, by rwa [List.append_nil]⟩

/-- What completes a part of a phrase that stands at its front completes the phrase. -/
theorem first (h : Blames r ts failure) (hend : ∀ ks a, r ks a → ∃ ks' b, q (ks ++ ks') b) :
    Blames q ts failure :=
  h.extend [] hend

/-- A failure at the first token blames nothing that was read. -/
theorem fail {cause : ParseError.Cause} (hcause : cause ≠ .invalidCharacter)
    (hr : ∃ ks a, r ks a) {failure : Failure}
    (h : (ParseError.fail cause ts : Except Failure β) = .error failure) :
    Blames r ts failure := by
  obtain ⟨ks, a, hr⟩ := hr
  have hrest : failure.Fair ∧ failure.rest = ts := by
    unfold ParseError.fail at h
    split at h
    · cases h
      simp [ParseError.Failure.Fair]
    · rename_i hnot
      cases h
      refine ⟨?_, rfl⟩
      simp only [ParseError.Failure.Fair, hcause, false_iff, Option.map_eq_some_iff,
        List.head?_eq_some_iff]
      rintro ⟨⟨_, span⟩, ⟨rest, rfl⟩, rfl⟩
      exact hnot span rest rfl
  exact ⟨hrest.1, [], by rw [hrest.2]; rfl, ks, a, hr⟩

end Blames

theorem blaming_identifier : Blaming parseIdentifier fun ks n => ks = [.identifier n] := by
  intro ts failure h
  unfold parseIdentifier at h
  split at h
  · cases h
  · exact .fail (by simp) ⟨_, "x", rfl⟩ h

theorem blaming_type : Blaming parseType TypeName := by
  intro ts failure h
  unfold parseType at h
  split at h
  · cases h
  · cases h
  · exact .fail (by simp) ⟨_, _, .number⟩ h

theorem blaming_closing (opening : Span) :
    Blaming (parseClosing opening) fun ks (_ : Unit) => ks = [.mark .closing] := by
  intro ts failure h
  unfold parseClosing at h
  split at h
  · cases h
  · exact .fail (by simp) ⟨_, (), rfl⟩ h

theorem blaming_colon : Blaming parseColon fun ks (_ : Unit) => ks = [.mark .colon] := by
  intro ts failure h
  unfold parseColon at h
  split at h
  · cases h
  · exact .fail (by simp) ⟨_, (), rfl⟩ h

theorem blaming_arrow : Blaming parseArrow fun ks (_ : Unit) => ks = [.mark .arrow] := by
  intro ts failure h
  unfold parseArrow at h
  split at h
  · cases h
  · exact .fail (by simp) ⟨_, (), rfl⟩ h

theorem blaming_assign : Blaming Command.parseAssign fun ks (_ : Unit) => ks = [.mark .assign] := by
  intro ts failure h
  unfold Command.parseAssign at h
  split at h
  · cases h
  · exact .fail (by simp) ⟨_, (), rfl⟩ h

theorem blaming_parameter : Blaming parseParameter Declaration := by
  intro ts failure h
  unfold parseParameter at h
  apply bind_eq_error_iff.mp at h
  rcases h with h | ⟨⟨n, ts₁⟩, hn, h⟩
  · refine (blaming_identifier h).first ?_
    rintro _ n rfl
    exact ⟨[.mark .colon, .keyword .numberType], _, .typed n .number⟩
  obtain ⟨front₁, rfl, h₁⟩ := sound_identifier hn
  apply bind_eq_error_iff.mp at h
  rcases h with h | ⟨⟨_, ts₂⟩, hc, h⟩
  · refine (blaming_colon h).extend front₁ ?_
    rintro _ _ rfl
    exact ⟨[.keyword .numberType], _, by rw [h₁]; exact .typed n .number⟩
  obtain ⟨front₂, rfl, h₂⟩ := sound_colon hc
  apply bind_eq_error_iff.mp at h
  rcases h with h | ⟨⟨_, _⟩, _, h⟩
  · rw [← List.append_assoc]
    refine (blaming_type h).last (front₁ ++ front₂) fun ks ty hks => ⟨⟨n, ty⟩, ?_⟩
    rw [List.map_append, h₁, h₂]
    exact .typed n hks
  · cases h

section Lists

variable {item : Parser α} {r : List Kind → α → Prop}

theorem blaming_items (hsound : Sound item r) (hitem : Blaming item r) (bound : Nat) :
    Blaming (parseItems item bound) (Commas r) := by
  induction bound with
  | zero =>
    intro ts failure h
    unfold parseItems at h
    apply bind_eq_error_iff.mp at h
    rcases h with h | ⟨_, _, h⟩
    · exact (hitem h).last [] fun ks a hr => ⟨[a], .one hr⟩
    · cases h
  | succ bound ih =>
    intro ts failure h
    unfold parseItems at h
    apply bind_eq_error_iff.mp at h
    rcases h with h | ⟨⟨a, ts'⟩, ha, h⟩
    · exact (hitem h).last [] fun ks a hr => ⟨[a], .one hr⟩
    obtain ⟨front, rfl, hr⟩ := hsound ha
    dsimp only at h
    split at h
    · rename_i span rest
      apply bind_eq_error_iff.mp at h
      rcases h with h | ⟨_, _, h⟩
      · have hrest := (ih h).last (q := Commas r) (front ++ [⟨.mark .comma, span⟩])
          fun ks as has => ⟨a :: as, by simpa using Commas.more hr has⟩
        simpa using hrest
      · cases h
    · cases h

theorem blaming_list (hsound : Sound item r) (hitem : Blaming item r) (bound : Nat)
    (opening : Span) :
    Blaming (parseList bound item opening) fun ks as =>
      ∃ ks', ks = ks' ++ [.mark .closing] ∧ Listed r ks' as := by
  intro ts failure h
  unfold parseList at h
  split at h
  · cases h
  · apply bind_eq_error_iff.mp at h
    rcases h with h | ⟨⟨as, ts₁⟩, has, h⟩
    · refine (blaming_items hsound hitem bound h).first fun ks as has => ?_
      exact ⟨[.mark .closing], as, ks, rfl, .some has⟩
    obtain ⟨front, rfl, hfront⟩ := sound_items hsound bound has
    apply bind_eq_error_iff.mp at h
    rcases h with h | ⟨_, _, h⟩
    · refine (blaming_closing opening h).last front ?_
      rintro _ _ rfl
      exact ⟨as, _, rfl, .some hfront⟩
    · cases h

end Lists

/-- A phrase with a minus sign before it is one. -/
theorem Phrase.exists_negation {ks : List Kind} {e : Expr} (h : Phrase .negation ks e) :
    ∃ e', Phrase .negation (.mark .minus :: ks) e' := by
  cases e with
  | number x => exact ⟨_, .negativeNumber h⟩
  | _ => exact ⟨_, .negative h (by simp)⟩

theorem blaming_negation {primary : Parser Expr} (h : Blaming primary (Phrase .primary)) :
    Blaming (parseNegation primary) (Phrase .negation) := by
  have hplain : ∀ ⦃ts failure⦄, primary ts = .error failure →
      Blames (Phrase .negation) ts failure :=
    fun _ _ hp => (h hp).last [] fun ks e he => ⟨e, .plain he⟩
  intro ts
  induction ts with
  | nil => exact fun failure hp => hplain hp
  | cons t ts ih =>
    intro failure hp
    unfold parseNegation at hp
    split at hp
    · rename_i span rest heq
      cases heq
      apply bind_eq_error_iff.mp at hp
      rcases hp with hp | ⟨_, _, hp⟩
      · exact (ih hp).last [⟨.mark .minus, span⟩] fun ks e he => he.exists_negation
      · cases hp
    · exact hplain hp

section Levels

variable {f g : Form} {operand : Parser Expr}

theorem blaming_operators (hg : f.operand? = some g) (hsound : Sound operand (Phrase g))
    (hop : Blaming operand (Phrase g)) (bound : Nat) (left : Expr) :
    Blaming (parseOperators f.operator? operand bound left) (Tail f) := by
  induction bound generalizing left with
  | zero =>
    intro ts failure h
    cases h
  | succ bound ih =>
    intro ts failure h
    unfold parseOperators at h
    split at h
    · rename_i m span rest hbound
      cases hbound
      split at h
      · rename_i op hm
        have hlink := operator?_eq_some_iff.mp hm
        apply bind_eq_error_iff.mp at h
        rcases h with h | ⟨⟨right, ts'⟩, hr, h⟩
        · refine (hop h).last [⟨.mark m, span⟩] fun ks e he => ⟨[(op, e)], ?_⟩
          simpa using Tail.cons hg hlink he (.nil f)
        · obtain ⟨front, rfl, hp⟩ := hsound hr
          have hrest := (ih _ h).last (q := Tail f) (⟨.mark m, span⟩ :: front)
            fun ks links hs => ⟨(op, right) :: links, by simpa using Tail.cons hg hlink hp hs⟩
          simpa using hrest
      · cases h
    · cases h

theorem blaming_level (hg : f.operand? = some g) (hsound : Sound operand (Phrase g))
    (hop : Blaming operand (Phrase g)) (bound : Nat) :
    Blaming (parseLevel bound f.operator? operand) (Phrase f) := by
  intro ts failure h
  unfold parseLevel at h
  apply bind_eq_error_iff.mp at h
  rcases h with h | ⟨⟨left, ts'⟩, hl, h⟩
  · refine (hop h).last [] fun ks e he => ⟨chained e [], ?_⟩
    simpa using Phrase.chain hg he (.nil f)
  · obtain ⟨front, rfl, hp⟩ := hsound hl
    refine (blaming_operators hg hsound hop bound left h).last front fun ks links hs => ?_
    exact ⟨chained left links, .chain hg hp hs⟩

end Levels

section Nested

variable {nested : Parser Expr}

theorem phrase_number (x : Float) : Phrase .expression [.number x] (.number x) := by
  have hproduct := Phrase.chain (f := .product) rfl (.plain (.number x)) (.nil .product)
  have hsum := Phrase.chain (f := .sum) rfl hproduct (.nil .sum)
  have hcomparison := Phrase.chain (f := .comparison) rfl hsum (.nil .comparison)
  exact .operation (.chain (f := .equality) rfl hcomparison (.nil .equality))

theorem blaming_function (hn : Blaming nested (Phrase .expression)) (bound : Nat)
    (opening : Span) :
    Blaming (parseFunction bound nested opening) fun ks e =>
      Phrase .expression (.mark .opening :: ks) e := by
  intro ts failure h
  unfold parseFunction at h
  apply bind_eq_error_iff.mp at h
  rcases h with h | ⟨⟨ps, ts₁⟩, hps, h⟩
  · refine (blaming_list sound_parameter blaming_parameter bound opening h).first ?_
    rintro _ ps ⟨ks, rfl, hlist⟩
    exact ⟨[.mark .arrow, .number 0.0], _, by simpa using Phrase.function hlist (phrase_number 0.0)⟩
  obtain ⟨front₁, rfl, ks, h₁, hlist⟩ := sound_list sound_parameter bound opening hps
  apply bind_eq_error_iff.mp at h
  rcases h with h | ⟨⟨_, ts₂⟩, ha, h⟩
  · refine (blaming_arrow h).extend front₁ ?_
    rintro _ _ rfl
    exact ⟨[.number 0.0], _, by simpa [h₁] using Phrase.function hlist (phrase_number 0.0)⟩
  obtain ⟨front₂, rfl, h₂⟩ := sound_arrow ha
  apply bind_eq_error_iff.mp at h
  rcases h with h | ⟨_, _, h⟩
  · rw [← List.append_assoc]
    refine (hn h).last (front₁ ++ front₂) fun ks' e he => ⟨.function 0 ps e, ?_⟩
    simpa [h₁, h₂] using Phrase.function hlist he
  · cases h

theorem blaming_primary (hsound : Sound nested (Phrase .expression))
    (hn : Blaming nested (Phrase .expression)) (bound : Nat) :
    Blaming (parsePrimary bound nested) (Phrase .primary) := by
  intro ts failure h
  unfold parsePrimary at h
  split at h
  case h_5 f span opening rest =>
    apply bind_eq_error_iff.mp at h
    rcases h with h | ⟨_, _, h⟩
    · refine (blaming_list hsound hn bound opening h).last
        [⟨.identifier f, span⟩, ⟨.mark .opening, opening⟩] ?_
      rintro _ args ⟨ks, rfl, hlist⟩
      exact ⟨_, .call f hlist⟩
    · cases h
  case h_7 opening rest =>
    apply bind_eq_error_iff.mp at h
    rcases h with h | ⟨⟨e, ts'⟩, he, h⟩
    · exact (hn h).extend [⟨.mark .opening, opening⟩] fun ks e he =>
        ⟨[.mark .closing], e, .parenthesized he⟩
    obtain ⟨front, rfl, hp⟩ := hsound he
    apply bind_eq_error_iff.mp at h
    rcases h with h | ⟨_, _, h⟩
    · refine (blaming_closing opening h).last (⟨.mark .opening, opening⟩ :: front) ?_
      rintro _ _ rfl
      exact ⟨e, .parenthesized hp⟩
    · cases h
  case h_8 => exact .fail (by simp) ⟨_, _, .number 0.0⟩ h
  all_goals cases h

theorem blaming_equality (hsound : Sound nested (Phrase .expression))
    (hn : Blaming nested (Phrase .expression)) (bound : Nat) :
    Blaming (parseEquality bound nested) (Phrase .equality) := by
  have snegation := sound_negation (sound_primary hsound bound)
  have sproduct := sound_level (f := .product) rfl snegation bound
  have ssum := sound_level (f := .sum) rfl sproduct bound
  have scomparison := sound_level (f := .comparison) rfl ssum bound
  have hnegation := blaming_negation (blaming_primary hsound hn bound)
  have hproduct := blaming_level (f := .product) rfl snegation hnegation bound
  have hsum := blaming_level (f := .sum) rfl sproduct hproduct bound
  have hcomparison := blaming_level (f := .comparison) rfl ssum hsum bound
  exact blaming_level (f := .equality) rfl scomparison hcomparison bound

theorem blaming_with (hsound : Sound nested (Phrase .expression))
    (hn : Blaming nested (Phrase .expression)) (bound : Nat) :
    Blaming (parseWith bound nested) (Phrase .expression) := by
  have hequality : ∀ ⦃ts failure⦄, parseEquality bound nested ts = .error failure →
      Blames (Phrase .expression) ts failure :=
    fun _ _ h => (blaming_equality hsound hn bound h).last [] fun ks e he => ⟨e, .operation he⟩
  intro ts failure h
  unfold parseWith at h
  split at h
  · rename_i opening rest
    split at h
    · exact (blaming_function hn bound opening h).last [⟨.mark .opening, opening⟩]
        fun ks e he => ⟨e, he⟩
    · exact hequality h
  · exact hequality h

end Nested

theorem blaming_within (depth : Nat) : Blaming (parseWithin depth) (Phrase .expression) := by
  induction depth with
  | zero => exact fun ts failure h => .fail (by simp) ⟨_, _, phrase_number 0.0⟩ h
  | succ depth ih => exact blaming_with (sound_within depth) ih depth

theorem blaming_parse : Blaming Expr.parse (Phrase .expression) :=
  fun _ _ h => blaming_within _ h

theorem blaming_front : Blaming Command.parseFront Sentence := by
  intro ts failure h
  unfold Command.parseFront at h
  split at h
  case h_1 span rest =>
    apply bind_eq_error_iff.mp at h
    rcases h with h | ⟨⟨n, ts₁⟩, hn, h⟩
    · refine (blaming_identifier h).extend [⟨.keyword .letWord, span⟩] ?_
      rintro _ n rfl
      exact ⟨[.mark .assign, .number 0.0], _, .define n (phrase_number 0.0)⟩
    obtain ⟨front₁, rfl, h₁⟩ := sound_identifier hn
    apply bind_eq_error_iff.mp at h
    rcases h with h | ⟨⟨_, ts₂⟩, ha, h⟩
    · refine (blaming_assign h).extend (⟨.keyword .letWord, span⟩ :: front₁) ?_
      rintro _ _ rfl
      exact ⟨[.number 0.0], _, by simpa [h₁] using Sentence.define n (phrase_number 0.0)⟩
    obtain ⟨front₂, rfl, h₂⟩ := sound_assign ha
    apply bind_eq_error_iff.mp at h
    rcases h with h | ⟨_, _, h⟩
    · have hrest := (blaming_parse h).last (q := Sentence)
        (⟨.keyword .letWord, span⟩ :: (front₁ ++ front₂))
        fun ks e he => ⟨_, by simpa [h₁, h₂] using Sentence.define n he⟩
      simpa using hrest
    · cases h
  case h_2 span rest =>
    apply bind_eq_error_iff.mp at h
    rcases h with h | ⟨_, _, h⟩
    · exact (blaming_parse h).last [⟨.keyword .explain, span⟩] fun ks e he => ⟨_, .explain he⟩
    · cases h
  case h_6 =>
    apply bind_eq_error_iff.mp at h
    rcases h with h | ⟨_, _, h⟩
    · exact (blaming_parse h).last [] fun ks e he => ⟨_, .expression he⟩
    · cases h
  all_goals cases h

/-- The tokens before an error are the front of a command. -/
theorem blames_of_parseTokens_error (h : Command.parseTokens ts = .error failure) :
    Blames Sentence ts failure := by
  unfold Command.parseTokens at h
  apply bind_eq_error_iff.mp at h
  rcases h with h | ⟨⟨command, rest⟩, hc, h⟩
  · exact blaming_front h
  · obtain ⟨front, rfl, hs⟩ := sound_front hc
    cases rest with
    | nil => cases h
    | cons t rest =>
      -- The command is complete before the token that is left.
      have htrailing : Blames (fun ks (_ : Unit) => ks = []) (t :: rest) failure :=
        .fail (by simp) ⟨_, (), rfl⟩ h
      refine htrailing.last front ?_
      rintro _ _ rfl
      exact ⟨command, by rwa [List.append_nil]⟩

end Grammar

end Reckoner
