import Mathlib
import Reckoner.Proofs.Grammar.Soundness

/-! # Where parsing stops

A parser stops somewhere in the tokens it was given, whether it succeeds or fails: what it leaves is
an end of them.  So an error speaks of a token of the line, or of the end of it, and the tokens that
it may ask for are the three that the grammar has a single choice for.
-/
namespace Reckoner

open ParseError (Failure fail)

/-- A cause that asks for a certain token asks for an assignment sign, a colon or an arrow. -/
def ParseError.Cause.Asks : ParseError.Cause → Prop
  | unexpectedToken expected => expected ∈ ["`=`", "`:`", "`->`"]
  | _ => True

namespace Grammar

open Reckoner.Expr

/-- A result that leaves an end of some tokens. -/
def StopsIn {α : Type} (ts : List Token) : Except Failure (α × List Token) → Prop
  | .ok (_, rest) => rest <:+ ts
  | .error failure => failure.rest <:+ ts ∧ failure.cause.Asks

/-- A parser that stops in the tokens that it is given. -/
def Stopping {α : Type} (p : Parser α) : Prop :=
  ∀ ts, StopsIn ts (p ts)

variable {α β : Type} {ts : List Token}

/-- A failure at the first of some tokens leaves all of them. -/
theorem fail_eq_error (cause : ParseError.Cause) (h : cause.Asks) {failure : Failure}
    (hfail : (fail cause ts : Except Failure α) = .error failure) :
    failure.rest <:+ ts ∧ failure.cause.Asks := by
  unfold fail at hfail
  split at hfail
  · cases hfail
    exact ⟨List.suffix_rfl, trivial⟩
  · cases hfail
    exact ⟨List.suffix_rfl, h⟩

namespace StopsIn

theorem suffix {ts' : List Token} {x : Except Failure (α × List Token)} (h : StopsIn ts' x)
    (hsuffix : ts' <:+ ts) : StopsIn ts x := by
  cases x with
  | ok result => exact List.IsSuffix.trans h hsuffix
  | error failure => exact ⟨h.1.trans hsuffix, h.2⟩

theorem ok_append (front rest : List Token) (a : α) : StopsIn (front ++ rest) (.ok (a, rest)) :=
  List.suffix_append front rest

theorem bind {x : Except Failure (α × List Token)}
    {f : α × List Token → Except Failure (β × List Token)} (hx : StopsIn ts x)
    (hf : ∀ a rest, StopsIn rest (f (a, rest))) : StopsIn ts (x >>= f) := by
  cases x with
  | ok result => exact (hf result.1 result.2).suffix hx
  | error failure => exact hx

theorem fail (cause : ParseError.Cause) (h : cause.Asks) (ts : List Token) :
    StopsIn ts (ParseError.fail cause ts : Except Failure (α × List Token)) := by
  cases hfail : (ParseError.fail cause ts : Except Failure (α × List Token)) with
  | ok result => exact absurd hfail (fail_ne_ok cause ts result)
  | error failure => exact fail_eq_error cause h hfail

end StopsIn

theorem stopping_identifier : Stopping parseIdentifier := by
  intro ts
  unfold parseIdentifier
  split
  · exact .ok_append [_] _ _
  · exact .fail .expectedIdentifier trivial _

theorem stopping_type : Stopping parseType := by
  intro ts
  unfold parseType
  split
  · exact .ok_append [_] _ _
  · exact .ok_append [_] _ _
  · exact .fail .expectedType trivial _

theorem stopping_closing (opening : Span) : Stopping (parseClosing opening) := by
  intro ts
  unfold parseClosing
  split
  · exact .ok_append [_] _ _
  · exact .fail (.unclosedDelimiter opening) trivial _

theorem stopping_colon : Stopping parseColon := by
  intro ts
  unfold parseColon
  split
  · exact .ok_append [_] _ _
  · exact .fail (.unexpectedToken _) (by simp [ParseError.Cause.Asks]) _

theorem stopping_arrow : Stopping parseArrow := by
  intro ts
  unfold parseArrow
  split
  · exact .ok_append [_] _ _
  · exact .fail (.unexpectedToken _) (by simp [ParseError.Cause.Asks]) _

theorem stopping_assign : Stopping Command.parseAssign := by
  intro ts
  unfold Command.parseAssign
  split
  · exact .ok_append [_] _ _
  · exact .fail (.unexpectedToken _) (by simp [ParseError.Cause.Asks]) _

theorem stopping_parameter : Stopping parseParameter := fun ts =>
  (stopping_identifier ts).bind fun _ ts => (stopping_colon ts).bind fun _ ts =>
    (stopping_type ts).bind fun _ _ => .ok_append [] _ _

theorem stopping_items {item : Parser α} (hitem : Stopping item) (bound : Nat) :
    Stopping (parseItems item bound) := by
  induction bound with
  | zero => exact fun ts => (hitem ts).bind fun _ _ => .ok_append [] _ _
  | succ bound ih =>
    refine fun ts => (hitem ts).bind fun a rest => ?_
    dsimp only
    split
    · rename_i span rest
      refine ((ih rest).bind fun _ _ => ?_).suffix (List.suffix_cons _ rest)
      exact .ok_append [] _ _
    · exact .ok_append [] _ _

theorem stopping_list {item : Parser α} (hitem : Stopping item) (bound : Nat) (opening : Span) :
    Stopping (parseList bound item opening) := by
  intro ts
  unfold parseList
  split
  · exact .ok_append [_] _ _
  · exact (stopping_items hitem bound _).bind fun _ ts =>
      (stopping_closing opening ts).bind fun _ _ => .ok_append [] _ _

theorem stopping_negation {primary : Parser Expr} (h : Stopping primary) :
    Stopping (parseNegation primary) := by
  intro ts
  induction ts with
  | nil => exact h []
  | cons t ts ih =>
    unfold parseNegation
    split
    · rename_i span rest heq
      cases heq
      refine (ih.bind fun _ _ => ?_).suffix (List.suffix_cons _ ts)
      exact .ok_append [] _ _
    · exact h _

section Levels

variable {operator? : Token.Mark → Option Operator} {operand : Parser Expr}

theorem stopping_operators (h : Stopping operand) (bound : Nat) (left : Expr) :
    Stopping (parseOperators operator? operand bound left) := by
  induction bound generalizing left with
  | zero => exact fun ts => List.suffix_rfl
  | succ bound ih =>
    intro ts
    unfold parseOperators
    split
    · rename_i hsucc
      cases hsucc
      split
      · refine ((h _).bind fun right rest => ih _ rest).suffix (List.suffix_cons _ _)
      · exact .ok_append [] _ _
    · exact .ok_append [] _ _

theorem stopping_level (h : Stopping operand) (bound : Nat) :
    Stopping (parseLevel bound operator? operand) :=
  fun ts => (h ts).bind fun left rest => stopping_operators h bound left rest

end Levels

section Nested

variable {nested : Parser Expr}

theorem stopping_function (hn : Stopping nested) (bound : Nat) (opening : Span) :
    Stopping (parseFunction bound nested opening) := fun ts =>
  (stopping_list stopping_parameter bound opening ts).bind fun _ ts =>
    (stopping_arrow ts).bind fun _ ts => (hn ts).bind fun _ _ => .ok_append [] _ _

theorem stopping_primary (hn : Stopping nested) (bound : Nat) :
    Stopping (parsePrimary bound nested) := by
  intro ts
  unfold parsePrimary
  split
  case h_5 f span opening rest =>
    refine ((stopping_list hn bound opening rest).bind fun _ _ => ?_).suffix
      (List.suffix_append [_, _] rest)
    exact .ok_append [] _ _
  case h_7 opening rest =>
    refine ((hn rest).bind fun _ ts => (stopping_closing opening ts).bind fun _ _ => ?_).suffix
      (List.suffix_cons _ rest)
    exact .ok_append [] _ _
  case h_8 => exact .fail .expectedExpression trivial _
  all_goals exact .ok_append [_] _ _

theorem stopping_equality (hn : Stopping nested) (bound : Nat) :
    Stopping (parseEquality bound nested) :=
  stopping_level (stopping_level (stopping_level (stopping_level
    (stopping_negation (stopping_primary hn bound)) bound) bound) bound) bound

theorem stopping_with (hn : Stopping nested) (bound : Nat) : Stopping (parseWith bound nested) := by
  intro ts
  unfold parseWith
  split
  · split
    · exact (stopping_function hn bound _ _).suffix (List.suffix_cons _ _)
    · exact stopping_equality hn bound _
  · exact stopping_equality hn bound _

end Nested

theorem stopping_within (depth : Nat) : Stopping (parseWithin depth) := by
  induction depth with
  | zero => exact .fail .expectedExpression trivial
  | succ depth ih => exact stopping_with ih depth

theorem stopping_parse : Stopping Expr.parse :=
  fun ts => stopping_within _ ts

theorem stopping_front : Stopping Command.parseFront := by
  intro ts
  unfold Command.parseFront
  split
  case h_1 span rest =>
    refine ((stopping_identifier rest).bind fun _ ts => (stopping_assign ts).bind fun _ ts =>
      (stopping_parse ts).bind fun _ _ => ?_).suffix (List.suffix_cons _ rest)
    exact .ok_append [] _ _
  case h_2 span rest =>
    refine ((stopping_parse rest).bind fun _ _ => ?_).suffix (List.suffix_cons _ rest)
    exact .ok_append [] _ _
  case h_6 => exact (stopping_parse ts).bind fun _ _ => .ok_append [] _ _
  all_goals exact .ok_append [_] _ _

/-- A failed command leaves an end of its tokens. -/
theorem suffix_of_parseTokens_error {failure : Failure}
    (h : Command.parseTokens ts = .error failure) :
    failure.rest <:+ ts ∧ failure.cause.Asks := by
  have hfront := stopping_front ts
  unfold Command.parseTokens at h
  cases hparse : Command.parseFront ts with
  | error failure' =>
    rw [hparse] at h hfront
    cases h
    exact hfront
  | ok result =>
    obtain ⟨command, rest⟩ := result
    rw [hparse] at h hfront
    cases rest with
    | nil => cases h
    | cons t rest =>
      rw [ok_bind] at h
      obtain ⟨hrest, hasks⟩ := fail_eq_error .trailingInput trivial h
      exact ⟨hrest.trans hfront, hasks⟩

end Grammar

end Reckoner
