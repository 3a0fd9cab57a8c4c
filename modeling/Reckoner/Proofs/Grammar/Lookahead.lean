import Mathlib
import Reckoner.Proofs.Grammar.Failure
import Reckoner.Proofs.Grammar.Viable

/-! # The first token that cannot go on

A parser that has not yet taken up a certain token goes the same way whatever stands after that token.
The one exception is the lookahead at a parenthesis, where a closing parenthesis starts a list of
parameters or not as an arrow follows it or not.  So where parsing fails at a token, no command has
the same tokens up to there.
-/
namespace Reckoner

namespace ParseError

variable (stop : Span) (failure : Failure)

/-- An error has the cause of its failure and the token that the failure stops at, with its span; at the
end of the line it has the span of that. -/
theorem ofFailure_eq :
    ofFailure stop failure = ⟨failure.cause, failure.rest.head?.map Token.kind,
      (failure.rest.head?.map Token.span).getD stop⟩ := by
  unfold ofFailure
  split <;> rename_i hrest <;> rw [hrest] <;> rfl

end ParseError

namespace Grammar

open Reckoner.Expr
open ParseError (Failure fail)
open Token (Kind Mark)

/-- The token after some tokens does not close a parenthesis that the last of them opens. -/
def Open (t : Token) (front : List Token) : Prop :=
  t.kind = .mark .closing → ∀ span, front.getLast? ≠ some ⟨.mark .opening, span⟩

/-- The outcomes of a parser on some tokens, then `t`, then `r` or `r'`.  Both give the same and leave
fewer than `n` of the tokens before `t`, or fail in the same way before `t` or at it, or the first has
taken up `t`. -/
inductive Couples (t : Token) (r r' : List Token) {α : Type} (n : Nat) :
    Except Failure (α × List Token) → Except Failure (α × List Token) → Prop where
  | ok (a : α) {front : List Token} (hopen : Open t front) (hlen : front.length < n) :
      Couples t r r' n (.ok (a, front ++ t :: r)) (.ok (a, front ++ t :: r'))
  | error (cause : ParseError.Cause) (front : List Token) :
      Couples t r r' n (.error ⟨cause, front ++ t :: r⟩) (.error ⟨cause, front ++ t :: r'⟩)
  | past {x y : Except Failure (α × List Token)} (h : StopsIn r x) : Couples t r r' n x y

/-- Parsers that go the same way as long as they have not taken up `t`, on fewer than `n` tokens
before it, of which they take up some. -/
def Coupled (t : Token) (r r' : List Token) {α : Type} (n : Nat) (p p' : Parser α) : Prop :=
  ∀ ⦃front : List Token⦄, Open t front → front.length < n →
    Couples t r r' front.length (p (front ++ t :: r)) (p' (front ++ t :: r'))

/-- Such parsers, but they may take up no tokens at all. -/
def CoupledTail (t : Token) (r r' : List Token) {α : Type} (n : Nat) (p p' : Parser α) : Prop :=
  ∀ ⦃front : List Token⦄, Open t front → front.length < n →
    Couples t r r' (front.length + 1) (p (front ++ t :: r)) (p' (front ++ t :: r'))

variable {α β : Type} {t : Token} {r r' : List Token} {m n : Nat}

theorem Open.tail {x : Token} {front : List Token} (h : Open t (x :: front)) : Open t front := by
  intro ht span hspan
  apply h ht span
  rw [List.getLast?_cons, hspan]
  rfl

theorem open_nil (t : Token) : Open t [] := by
  intro _ span h
  cases h

namespace Couples

theorem mono {x y : Except Failure (α × List Token)} (h : Couples t r r' m x y) (hmn : m ≤ n) :
    Couples t r r' n x y := by
  cases h with
  | ok a hopen hlen => exact .ok a hopen (by omega)
  | error cause front => exact .error cause front
  | past h => exact .past h

theorem bind {x y : Except Failure (α × List Token)}
    {f g : α × List Token → Except Failure (β × List Token)} (h : Couples t r r' m x y)
    (hf : ∀ a front, Open t front → front.length < m →
      Couples t r r' n (f (a, front ++ t :: r)) (g (a, front ++ t :: r')))
    (hstop : ∀ a rest, StopsIn rest (f (a, rest))) : Couples t r r' n (x >>= f) (y >>= g) := by
  cases h with
  | ok a hopen hlen => exact hf a _ hopen hlen
  | error cause front => exact .error cause front
  | past h => exact .past (h.bind hstop)

/-- A result may be put together from what is given. -/
theorem map {x y : Except Failure (α × List Token)} (f : α → β) (h : Couples t r r' n x y) :
    Couples t r r' n (x >>= fun (a, ts) => .ok (f a, ts)) (y >>= fun (a, ts) => .ok (f a, ts)) :=
  h.bind (fun a _ hopen hlen => .ok (f a) hopen hlen) fun _ _ => .ok_append [] _ _

theorem fail (cause : ParseError.Cause) (front : List Token) :
    Couples t r r' n (ParseError.fail cause (front ++ t :: r) : Except Failure (α × List Token))
      (ParseError.fail cause (front ++ t :: r')) := by
  cases front with
  | nil =>
    obtain ⟨kind, span⟩ := t
    cases kind <;> exact .error _ []
  | cons x front =>
    obtain ⟨kind, span⟩ := x
    cases kind <;> exact .error _ (_ :: front)

end Couples

/-- Something that may follow is parsed after something of at least one token. -/
theorem Coupled.bind {p p' : Parser α} {q q' : α → Parser β} (hp : Coupled t r r' n p p')
    (hq : ∀ a, CoupledTail t r r' m (q a) (q' a)) (hstop : ∀ a, Stopping (q a)) {front : List Token}
    (hopen : Open t front) (hlen : front.length < n) (hle : front.length ≤ m) :
    Couples t r r' front.length (p (front ++ t :: r) >>= fun (a, ts) => q a ts)
      (p' (front ++ t :: r') >>= fun (a, ts) => q' a ts) := by
  refine (hp hopen hlen).bind (fun a front₁ hopen₁ hlen₁ => ?_) fun a rest => hstop a rest
  exact (hq a hopen₁ (by omega)).mono hlen₁

/-- A parser that looks at one token only goes the same way until it has taken it up. -/
theorem coupled_token {p : Parser α} (cause : ParseError.Cause)
    (h : ∀ x, (∃ a, ∀ rest, p (x :: rest) = .ok (a, rest)) ∨
      ∀ rest, p (x :: rest) = fail cause (x :: rest)) : Coupled t r r' n p p := by
  intro front hopen _
  cases front with
  | nil =>
    rcases h t with ⟨a, htake⟩ | hfail
    · exact .past (by rw [List.nil_append, htake]; exact List.suffix_rfl)
    · rw [List.nil_append, List.nil_append, hfail, hfail]
      exact .fail cause []
  | cons x front =>
    rw [List.cons_append, List.cons_append]
    rcases h x with ⟨a, htake⟩ | hfail
    · rw [htake, htake]
      exact .ok a hopen.tail (Nat.lt_succ_self _)
    · rw [hfail, hfail]
      exact .fail cause (x :: front)

theorem coupled_identifier : Coupled t r r' n parseIdentifier parseIdentifier := by
  apply coupled_token .expectedIdentifier
  rintro ⟨kind, span⟩
  cases kind with
  | identifier name => exact .inl ⟨name, fun _ => rfl⟩
  | _ => exact .inr fun _ => rfl

theorem coupled_type : Coupled t r r' n parseType parseType := by
  apply coupled_token .expectedType
  rintro ⟨kind, span⟩
  cases kind with
  | keyword word =>
    cases word with
    | numberType => exact .inl ⟨_, fun _ => rfl⟩
    | booleanType => exact .inl ⟨_, fun _ => rfl⟩
    | _ => exact .inr fun _ => rfl
  | _ => exact .inr fun _ => rfl

theorem coupled_closing (opening : Span) :
    Coupled t r r' n (parseClosing opening) (parseClosing opening) := by
  apply coupled_token (.unclosedDelimiter opening)
  rintro ⟨kind, span⟩
  cases kind with
  | mark m =>
    cases m with
    | closing => exact .inl ⟨(), fun _ => rfl⟩
    | _ => exact .inr fun _ => rfl
  | _ => exact .inr fun _ => rfl

theorem coupled_colon : Coupled t r r' n parseColon parseColon := by
  apply coupled_token (.unexpectedToken "`:`")
  rintro ⟨kind, span⟩
  cases kind with
  | mark m =>
    cases m with
    | colon => exact .inl ⟨(), fun _ => rfl⟩
    | _ => exact .inr fun _ => rfl
  | _ => exact .inr fun _ => rfl

theorem coupled_arrow : Coupled t r r' n parseArrow parseArrow := by
  apply coupled_token (.unexpectedToken "`->`")
  rintro ⟨kind, span⟩
  cases kind with
  | mark m =>
    cases m with
    | arrow => exact .inl ⟨(), fun _ => rfl⟩
    | _ => exact .inr fun _ => rfl
  | _ => exact .inr fun _ => rfl

theorem coupled_assign : Coupled t r r' n Command.parseAssign Command.parseAssign := by
  apply coupled_token (.unexpectedToken "`=`")
  rintro ⟨kind, span⟩
  cases kind with
  | mark m =>
    cases m with
    | assign => exact .inl ⟨(), fun _ => rfl⟩
    | _ => exact .inr fun _ => rfl
  | _ => exact .inr fun _ => rfl

theorem coupled_parameter : Coupled t r r' n parseParameter parseParameter := by
  intro front hopen hlen
  refine (coupled_identifier hopen hlen).bind (fun name front₁ hopen₁ hlen₁ => ?_)
    fun _ ts => (stopping_colon ts).bind fun _ ts => (stopping_type ts).bind fun _ _ =>
      .ok_append [] _ _
  refine ((coupled_colon hopen₁ (hlen₁.trans hlen)).mono hlen₁.le).bind
    (fun _ front₂ hopen₂ hlen₂ => ?_) fun _ ts => (stopping_type ts).bind fun _ _ =>
      .ok_append [] _ _
  exact ((coupled_type hopen₂ (hlen₂.trans hlen)).mono hlen₂.le).map _

section Lists

variable {item item' : Parser α}

/-- What is parsed after an item, when a comma may be followed by more items. -/
def parseFurther (item : Parser α) (a : α) : Nat → Parser (List α)
  | bound + 1, ⟨.mark .comma, _⟩ :: ts => do
    let (as, ts) ← parseItems item bound ts
    return (a :: as, ts)
  | _, ts => .ok ([a], ts)

theorem parseItems_eq (item : Parser α) (bound : Nat) (ts : List Token) :
    parseItems item bound ts = item ts >>= fun (a, ts) => parseFurther item a bound ts := by
  cases bound with
  | zero => rfl
  | succ bound =>
    unfold parseItems
    congr
    funext found
    obtain ⟨a, ts⟩ := found
    dsimp only
    split
    · rfl
    · rename_i hne
      unfold parseFurther
      split
      · exact absurd rfl (hne _ _)
      · rfl

theorem stopping_further (hstop : Stopping item) (a : α) (bound : Nat) :
    Stopping (parseFurther item a bound) := by
  intro ts
  unfold parseFurther
  split
  · rename_i span rest
    refine ((stopping_items hstop _ rest).bind fun _ _ => ?_).suffix (List.suffix_cons _ rest)
    exact .ok_append [] _ _
  · exact .ok_append [] _ _

/-- The bound on the number of commas does not matter as long as it is no less than the number of tokens
before `t`. -/
theorem coupled_further (hitem : Coupled t r r' n item item') (hstop : Stopping item) (a : α)
    {k bound bound' : Nat} (hn : k ≤ n) (hbound : k ≤ bound) (hbound' : k ≤ bound') :
    CoupledTail t r r' k (parseFurther item a bound) (parseFurther item' a bound') := by
  induction k generalizing a bound bound' with
  | zero => exact fun front _ hlen => absurd hlen (Nat.not_lt_zero _)
  | succ k ih =>
    obtain ⟨bound, rfl⟩ := Nat.exists_eq_add_of_lt hbound
    obtain ⟨bound', rfl⟩ := Nat.exists_eq_add_of_lt hbound'
    intro front hopen hlen
    cases front with
    | nil =>
      obtain ⟨kind, span⟩ := t
      cases kind with
      | mark mark =>
        cases mark with
        | comma => exact .past ((stopping_items hstop _ r).bind fun _ _ => .ok_append [] _ _)
        | _ => exact .ok [a] hopen (Nat.lt_succ_self _)
      | _ => exact .ok [a] hopen (Nat.lt_succ_self _)
    | cons x front =>
      have hshort : front.length < k := Nat.lt_of_succ_lt_succ hlen
      obtain ⟨kind, span⟩ := x
      cases kind with
      | mark mark =>
        cases mark with
        | comma =>
          have hfurther : ∀ a, CoupledTail t r r' k (parseFurther item a (k + bound))
              (parseFurther item' a (k + bound')) :=
            fun a => ih a (by omega) (by omega) (by omega)
          have hitems := hitem.bind hfurther (fun a => stopping_further hstop a _) hopen.tail
            (by omega) hshort.le
          rw [← parseItems_eq, ← parseItems_eq] at hitems
          refine Couples.map (a :: ·) (hitems.mono ?_)
          simp only [List.length_cons]
          omega
        | _ => exact .ok [a] hopen (Nat.lt_succ_self _)
      | _ => exact .ok [a] hopen (Nat.lt_succ_self _)

theorem coupled_items (hitem : Coupled t r r' n item item') (hstop : Stopping item)
    {bound bound' : Nat} (hbound : n ≤ bound + 1) (hbound' : n ≤ bound' + 1) :
    Coupled t r r' n (parseItems item bound) (parseItems item' bound') := by
  intro front hopen hlen
  have hfurther : ∀ a, CoupledTail t r r' front.length (parseFurther item a bound)
      (parseFurther item' a bound') :=
    fun a => coupled_further hitem hstop a hlen.le (by omega) (by omega)
  rw [parseItems_eq, parseItems_eq]
  exact hitem.bind hfurther (fun a => stopping_further hstop a bound) hopen hlen le_rfl

theorem parseList_of_ne {x : Token} (hx : x.kind ≠ .mark .closing) (bound : Nat) (opening : Span)
    (rest : List Token) :
    parseList bound item opening (x :: rest) = parseItems item bound (x :: rest) >>= fun (as, ts) =>
      parseClosing opening ts >>= fun (_, ts) => .ok (as, ts) := by
  unfold parseList
  split
  · rename_i heq
    cases heq
    exact absurd rfl hx
  · rfl

theorem coupled_list (hitem : Coupled t r r' n item item') (hstop : Stopping item)
    {bound bound' : Nat} (hbound : n ≤ bound + 1) (hbound' : n ≤ bound' + 1) (opening : Span) :
    Coupled t r r' n (parseList bound item opening) (parseList bound' item' opening) := by
  intro front hopen hlen
  -- Where the list is not empty, its items are parsed and then the parenthesis.
  have hsome : Couples t r r' front.length
      (parseItems item bound (front ++ t :: r) >>= fun (as, ts) =>
        parseClosing opening ts >>= fun (_, ts) => .ok (as, ts))
      (parseItems item' bound' (front ++ t :: r') >>= fun (as, ts) =>
        parseClosing opening ts >>= fun (_, ts) => .ok (as, ts)) := by
    refine (coupled_items hitem hstop hbound hbound' hopen hlen).bind
      (fun as front₁ hopen₁ hlen₁ => ?_) fun as rest =>
        (stopping_closing opening rest).bind fun _ _ => .ok_append [] _ _
    have hclosing : Coupled t r r' n (parseClosing opening) (parseClosing opening) :=
      coupled_closing opening
    exact ((hclosing hopen₁ (hlen₁.trans hlen)).map fun _ => as).mono hlen₁.le
  cases front with
  | nil =>
    by_cases ht : t.kind = .mark .closing
    · obtain ⟨kind, span⟩ := t
      subst ht
      exact .past List.suffix_rfl
    · rw [List.nil_append, List.nil_append] at hsome ⊢
      rw [parseList_of_ne ht, parseList_of_ne ht]
      exact hsome
  | cons x front =>
    rw [List.cons_append, List.cons_append] at hsome ⊢
    by_cases hx : x.kind = .mark .closing
    · obtain ⟨kind, span⟩ := x
      subst hx
      exact .ok [] hopen.tail (Nat.lt_succ_self _)
    · rw [parseList_of_ne hx, parseList_of_ne hx]
      exact hsome

end Lists

theorem parseNegation_of_ne {primary : Parser Expr} {x : Token} (hx : x.kind ≠ .mark .minus)
    (rest : List Token) : parseNegation primary (x :: rest) = primary (x :: rest) := by
  unfold parseNegation
  split
  · rename_i heq
    cases heq
    exact absurd rfl hx
  · rfl

theorem coupled_negation {primary primary' : Parser Expr} (h : Coupled t r r' n primary primary')
    (hstop : Stopping primary) :
    Coupled t r r' n (parseNegation primary) (parseNegation primary') := by
  intro front hopen hlen
  induction front with
  | nil =>
    by_cases ht : t.kind = .mark .minus
    · obtain ⟨kind, span⟩ := t
      subst ht
      exact .past ((stopping_negation hstop r).bind fun _ _ => .ok_append [] _ _)
    · have hprimary := h hopen hlen
      rw [List.nil_append, List.nil_append] at hprimary ⊢
      rwa [parseNegation_of_ne ht, parseNegation_of_ne ht]
  | cons x front ih =>
    by_cases hx : x.kind = .mark .minus
    · obtain ⟨kind, span⟩ := x
      subst hx
      have hoperand := ih hopen.tail ((Nat.lt_succ_self _).trans hlen)
      exact (hoperand.map negate).mono (Nat.le_succ _)
    · have hprimary := h hopen hlen
      rw [List.cons_append, List.cons_append] at hprimary ⊢
      rwa [parseNegation_of_ne hx, parseNegation_of_ne hx]

section Levels

variable {operator? : Token.Mark → Option Operator} {operand operand' : Parser Expr}

theorem coupled_operators (hop : Coupled t r r' n operand operand') (hstop : Stopping operand)
    {k bound bound' : Nat} (hn : k ≤ n) (hbound : k ≤ bound) (hbound' : k ≤ bound') (left : Expr) :
    CoupledTail t r r' k (parseOperators operator? operand bound left)
      (parseOperators operator? operand' bound' left) := by
  induction k generalizing left bound bound' with
  | zero => exact fun front _ hlen => absurd hlen (Nat.not_lt_zero _)
  | succ k ih =>
    obtain ⟨bound, rfl⟩ := Nat.exists_eq_add_of_lt hbound
    obtain ⟨bound', rfl⟩ := Nat.exists_eq_add_of_lt hbound'
    intro front hopen hlen
    cases front with
    | nil =>
      obtain ⟨kind, span⟩ := t
      cases kind with
      | mark mark =>
        rw [List.nil_append, List.nil_append]
        unfold parseOperators
        cases operator? mark with
        | none => exact .ok left (open_nil _) Nat.one_pos
        | some op =>
          exact .past ((hstop r).bind fun right rest =>
            stopping_operators hstop _ (.binary op left right) rest)
      | _ => exact .ok left (open_nil _) Nat.one_pos
    | cons x front =>
      have hshort : front.length < k := Nat.lt_of_succ_lt_succ hlen
      obtain ⟨kind, span⟩ := x
      cases kind with
      | mark mark =>
        rw [List.cons_append, List.cons_append]
        unfold parseOperators
        cases operator? mark with
        | none => exact .ok left hopen (Nat.lt_succ_self _)
        | some op =>
          have hothers : ∀ right, CoupledTail t r r' k
              (parseOperators operator? operand (k + bound) (.binary op left right))
              (parseOperators operator? operand' (k + bound') (.binary op left right)) :=
            fun right => ih (by omega) (by omega) (by omega) _
          have hrest := hop.bind hothers
            (fun right => stopping_operators hstop _ (.binary op left right)) hopen.tail (by omega)
            hshort.le
          refine hrest.mono ?_
          simp only [List.length_cons]
          omega
      | _ => exact .ok left hopen (Nat.lt_succ_self _)

theorem coupled_level (operator? : Token.Mark → Option Operator)
    (hop : Coupled t r r' n operand operand') (hstop : Stopping operand) {bound bound' : Nat}
    (hbound : n ≤ bound + 1) (hbound' : n ≤ bound' + 1) :
    Coupled t r r' n (parseLevel bound operator? operand) (parseLevel bound' operator? operand') := by
  intro front hopen hlen
  have hothers : ∀ left, CoupledTail t r r' front.length (parseOperators operator? operand bound left)
      (parseOperators operator? operand' bound' left) :=
    fun left => coupled_operators hop hstop hlen.le (by omega) (by omega) left
  exact hop.bind hothers (fun left => stopping_operators hstop bound left) hopen hlen le_rfl

/-- Operands with operators between them start as the first operand does. -/
theorem stopsIn_level (operator? : Token.Mark → Option Operator) (hstop : Stopping operand)
    (bound : Nat) {ts rest : List Token} (h : StopsIn rest (operand ts)) :
    StopsIn rest (parseLevel bound operator? operand ts) :=
  h.bind fun left => stopping_operators hstop bound left

end Levels

section Nested

variable {nested nested' : Parser Expr} {bound bound' : Nat}

theorem coupled_function (hn : Coupled t r r' n nested nested') (hstop : Stopping nested)
    (hbound : n ≤ bound + 1) (hbound' : n ≤ bound' + 1) (opening : Span) :
    Coupled t r r' n (parseFunction bound nested opening) (parseFunction bound' nested' opening) := by
  intro front hopen hlen
  have hparams : Coupled t r r' n (parseList bound parseParameter opening)
      (parseList bound' parseParameter opening) :=
    coupled_list coupled_parameter stopping_parameter hbound hbound' opening
  refine (hparams hopen hlen).bind (fun ps front₁ hopen₁ hlen₁ => ?_) fun _ ts =>
    (stopping_arrow ts).bind fun _ ts => (hstop ts).bind fun _ _ => .ok_append [] _ _
  refine ((coupled_arrow hopen₁ (hlen₁.trans hlen)).mono hlen₁.le).bind
    (fun _ front₂ hopen₂ hlen₂ => ?_) fun _ ts => (hstop ts).bind fun _ _ => .ok_append [] _ _
  exact ((hn hopen₂ (hlen₂.trans hlen)).mono hlen₂.le).map _

/-- A name that no parenthesis follows is not called. -/
theorem parsePrimary_name (f : String) (span : Span) {x : Token} (hx : x.kind ≠ .mark .opening)
    (rest : List Token) :
    parsePrimary bound nested (⟨.identifier f, span⟩ :: x :: rest) = .ok (.symbol f, x :: rest) := by
  obtain ⟨kind, span⟩ := x
  cases kind with
  | mark mark =>
    cases mark with
    | opening => exact absurd rfl hx
    | _ => rfl
  | _ => rfl

theorem stopsIn_primary_identifier (hstop : Stopping nested) (f : String) (span : Span)
    (rest : List Token) :
    StopsIn rest (parsePrimary bound nested (⟨.identifier f, span⟩ :: rest)) := by
  cases rest with
  | nil => exact List.suffix_rfl
  | cons x rest =>
    by_cases hx : x.kind = .mark .opening
    · obtain ⟨kind, opening⟩ := x
      subst hx
      refine StopsIn.suffix ?_ (List.suffix_cons _ rest)
      exact (stopping_list hstop bound opening rest).bind fun _ _ => .ok_append [] _ _
    · rw [parsePrimary_name f span hx]
      exact List.suffix_rfl

theorem stopsIn_primary_opening (hstop : Stopping nested) (opening : Span) (rest : List Token) :
    StopsIn rest (parsePrimary bound nested (⟨.mark .opening, opening⟩ :: rest)) :=
  (hstop rest).bind fun _ ts => (stopping_closing opening ts).bind fun _ _ => .ok_append [] _ _

/-- The first token of an operand is taken up, or no operand starts with it. -/
theorem stopsIn_primary (hstop : Stopping nested) (bound : Nat) (x : Token) :
    (∀ rest, StopsIn rest (parsePrimary bound nested (x :: rest))) ∨
      ∀ bound nested rest,
        parsePrimary bound nested (x :: rest) = fail .expectedExpression (x :: rest) := by
  obtain ⟨kind, span⟩ := x
  cases kind with
  | number v => exact .inl fun rest => List.suffix_rfl
  | identifier f => exact .inl (stopsIn_primary_identifier hstop f span)
  | keyword word =>
    cases word with
    | trueWord => exact .inl fun rest => List.suffix_rfl
    | falseWord => exact .inl fun rest => List.suffix_rfl
    | _ => exact .inr fun _ _ _ => rfl
  | mark mark =>
    cases mark with
    | hash => exact .inl fun rest => List.suffix_rfl
    | opening => exact .inl (stopsIn_primary_opening hstop span)
    | _ => exact .inr fun _ _ _ => rfl
  | invalid => exact .inr fun _ _ _ => rfl

theorem coupled_primary (hn : Coupled t r r' n nested nested') (hstop : Stopping nested)
    (hbound : n ≤ bound + 1) (hbound' : n ≤ bound' + 1) :
    Coupled t r r' (n + 1) (parsePrimary bound nested) (parsePrimary bound' nested') := by
  intro front hopen hlen
  cases front with
  | nil =>
    rcases stopsIn_primary hstop bound t with htake | hfail
    · exact .past (htake r)
    · rw [List.nil_append, List.nil_append, hfail, hfail]
      exact .fail .expectedExpression []
  | cons x front =>
    have hshort : front.length < n := Nat.lt_of_succ_lt_succ hlen
    have htake : ∀ e : Expr, Couples t r r' (front.length + 1) (.ok (e, front ++ t :: r))
        (.ok (e, front ++ t :: r')) := fun e => .ok e hopen.tail (Nat.lt_succ_self _)
    have hfail : Couples t r r' (front.length + 1)
        (fail .expectedExpression (x :: front ++ t :: r) : Except Failure (Expr × List Token))
        (fail .expectedExpression (x :: front ++ t :: r')) := .fail _ (x :: front)
    obtain ⟨kind, span⟩ := x
    cases kind with
    | number v => exact htake (.number v)
    | invalid => exact hfail
    | keyword word =>
      cases word with
      | trueWord => exact htake (.boolean true)
      | falseWord => exact htake (.boolean false)
      | _ => exact hfail
    | mark mark =>
      cases mark with
      | hash => exact htake (.symbol lastResult)
      | opening =>
        refine Couples.mono ?_ (Nat.le_succ _)
        refine (hn hopen.tail hshort).bind (fun e front₁ hopen₁ hlen₁ => ?_) fun _ ts =>
          (stopping_closing span ts).bind fun _ _ => .ok_append [] _ _
        have hclosing : Coupled t r r' n (parseClosing span) (parseClosing span) :=
          coupled_closing span
        exact ((hclosing hopen₁ (hlen₁.trans hshort)).map fun _ => e).mono hlen₁.le
      | _ => exact hfail
    | identifier f =>
      -- The token after a name tells whether it is called.
      cases front with
      | nil =>
        by_cases ht : t.kind = .mark .opening
        · obtain ⟨kind, opening⟩ := t
          subst ht
          exact .past ((stopping_list hstop bound opening r).bind fun _ _ => .ok_append [] _ _)
        · rw [List.cons_append, List.cons_append, List.nil_append, List.nil_append,
            parsePrimary_name f span ht, parsePrimary_name f span ht]
          exact .ok (Expr.symbol f) (open_nil t) Nat.one_pos
      | cons y front =>
        by_cases hy : y.kind = .mark .opening
        · obtain ⟨kind, opening⟩ := y
          subst hy
          have hargs := coupled_list hn hstop hbound hbound' opening hopen.tail.tail
            ((Nat.lt_succ_self _).trans hshort)
          refine (hargs.map fun args => Expr.call f args).mono ?_
          simp only [List.length_cons]
          omega
        · rw [List.cons_append, List.cons_append, List.cons_append, List.cons_append,
            parsePrimary_name f span hy, parsePrimary_name f span hy]
          exact htake (.symbol f)

theorem coupled_equality (hn : Coupled t r r' n nested nested') (hstop : Stopping nested)
    (hbound : n ≤ bound) (hbound' : n ≤ bound') :
    Coupled t r r' (n + 1) (parseEquality bound nested) (parseEquality bound' nested') := by
  have hb := Nat.succ_le_succ hbound
  have hb' := Nat.succ_le_succ hbound'
  have sprimary := stopping_primary hstop bound
  have hprimary : Coupled t r r' (n + 1) (parsePrimary bound nested) (parsePrimary bound' nested') :=
    coupled_primary hn hstop (by omega) (by omega)
  have snegation := stopping_negation sprimary
  have sproduct := @stopping_level productOperator? _ snegation bound
  have ssum := @stopping_level sumOperator? _ sproduct bound
  have scomparison := @stopping_level comparisonOperator? _ ssum bound
  have hproduct := coupled_level productOperator? (coupled_negation hprimary sprimary) snegation hb hb'
  have hsum := coupled_level sumOperator? hproduct sproduct hb hb'
  have hcomparison := coupled_level comparisonOperator? hsum ssum hb hb'
  exact coupled_level equalityOperator? hcomparison scomparison hb hb'

/-- An operation takes up its first token if an operand does that starts with it. -/
theorem stopsIn_equality (hstop : Stopping nested) {x : Token} {ts rest : List Token}
    (hx : x.kind ≠ .mark .minus) (h : StopsIn rest (parsePrimary bound nested (x :: ts))) :
    StopsIn rest (parseEquality bound nested (x :: ts)) := by
  have sprimary := stopping_primary hstop bound
  have snegation := stopping_negation sprimary
  have sproduct := @stopping_level productOperator? _ snegation bound
  have ssum := @stopping_level sumOperator? _ sproduct bound
  have scomparison := @stopping_level comparisonOperator? _ ssum bound
  have hnegation : StopsIn rest (parseNegation (parsePrimary bound nested) (x :: ts)) := by
    rwa [parseNegation_of_ne hx]
  have hproduct := stopsIn_level productOperator? snegation bound hnegation
  have hsum := stopsIn_level sumOperator? sproduct bound hproduct
  have hcomparison := stopsIn_level comparisonOperator? ssum bound hsum
  exact stopsIn_level equalityOperator? scomparison bound hcomparison

/-- An expression that starts with a name takes the name up. -/
theorem stopsIn_with_identifier (hstop : Stopping nested) (bound : Nat) (name : String)
    (span : Span) (rest : List Token) :
    StopsIn rest (parseWith bound nested (⟨.identifier name, span⟩ :: rest)) :=
  stopsIn_equality hstop (by simp) (stopsIn_primary_identifier hstop name span rest)

/-- A list of parameters that starts with a name takes the name up. -/
theorem stopsIn_function_identifier (hstop : Stopping nested) (bound : Nat) (opening : Span)
    (name : String) (span : Span) (rest : List Token) :
    StopsIn rest (parseFunction bound nested opening (⟨.identifier name, span⟩ :: rest)) := by
  have hname : StopsIn rest (parseIdentifier (⟨.identifier name, span⟩ :: rest)) := List.suffix_rfl
  have hparameter : StopsIn rest (parseParameter (⟨.identifier name, span⟩ :: rest)) :=
    hname.bind fun _ ts => (stopping_colon ts).bind fun _ ts => (stopping_type ts).bind fun _ _ =>
      .ok_append [] _ _
  have hlist : StopsIn rest
      (parseList bound parseParameter opening (⟨.identifier name, span⟩ :: rest)) := by
    rw [parseList_of_ne (by simp), parseItems_eq]
    refine (hparameter.bind fun p ts => stopping_further stopping_parameter p bound ts).bind
      fun _ ts => (stopping_closing opening ts).bind fun _ _ => .ok_append [] _ _
  exact hlist.bind fun _ ts => (stopping_arrow ts).bind fun _ ts => (hstop ts).bind fun _ _ =>
    .ok_append [] _ _

/-- The lookahead at a parenthesis is over after two tokens. -/
theorem startsFunction_congr (x y : Token) (rest rest' : List Token) :
    startsFunction (x :: y :: rest) = startsFunction (x :: y :: rest') := by
  obtain ⟨kind, _⟩ := x
  obtain ⟨kind', _⟩ := y
  cases kind with
  | mark mark =>
    cases mark with
    | closing =>
      cases kind' with
      | mark mark => cases mark <;> rfl
      | _ => rfl
    | _ => rfl
  | identifier _ =>
    cases kind' with
    | mark mark => cases mark <;> rfl
    | _ => rfl
  | _ => rfl

theorem startsFunction_of_ne {x : Token} (hclosing : x.kind ≠ .mark .closing)
    (hname : ∀ name, x.kind ≠ .identifier name) (rest : List Token) :
    startsFunction (x :: rest) = false := by
  unfold startsFunction
  split
  · rename_i heq
    cases heq
    exact absurd rfl hclosing
  · rename_i heq
    cases heq
    exact absurd rfl (hname _)
  · rfl

theorem parseWith_of_ne {x : Token} (hx : x.kind ≠ .mark .opening) (rest : List Token) :
    parseWith bound nested (x :: rest) = parseEquality bound nested (x :: rest) := by
  unfold parseWith
  split
  · rename_i heq
    cases heq
    exact absurd rfl hx
  · rfl

theorem coupled_with (hn : Coupled t r r' n nested nested') (hstop : Stopping nested)
    (hname : 0 < n → ∀ name span rest, StopsIn rest (nested (⟨.identifier name, span⟩ :: rest)))
    (hbound : n ≤ bound) (hbound' : n ≤ bound') :
    Coupled t r r' (n + 1) (parseWith bound nested) (parseWith bound' nested') := by
  intro front hopen hlen
  have hequality : Couples t r r' front.length (parseEquality bound nested (front ++ t :: r))
      (parseEquality bound' nested' (front ++ t :: r')) :=
    coupled_equality hn hstop hbound hbound' hopen hlen
  cases front with
  | nil =>
    rw [List.nil_append, List.nil_append] at hequality ⊢
    by_cases ht : t.kind = .mark .opening
    · obtain ⟨kind, opening⟩ := t
      subst ht
      refine .past ?_
      unfold parseWith
      dsimp only
      split
      · exact stopping_function hstop bound opening r
      · exact stopsIn_equality hstop (by simp) (stopsIn_primary_opening hstop opening r)
    · rwa [parseWith_of_ne ht, parseWith_of_ne ht]
  | cons x front =>
    have hshort : front.length < n := Nat.lt_of_succ_lt_succ hlen
    rw [List.cons_append, List.cons_append] at hequality ⊢
    by_cases hx : x.kind = .mark .opening
    · obtain ⟨kind, opening⟩ := x
      subst hx
      have hfunction : Coupled t r r' n (parseFunction bound nested opening)
          (parseFunction bound' nested' opening) :=
        coupled_function hn hstop (by omega) (by omega) opening
      have hparams := (hfunction hopen.tail hshort).mono (Nat.le_succ front.length)
      unfold parseWith
      dsimp only
      cases front with
      | nil =>
        rw [List.nil_append, List.nil_append] at hequality hparams ⊢
        by_cases hident : ∃ name, t.kind = .identifier name
        · -- Both a list of parameters and an expression in parentheses take up the name.
          obtain ⟨kind, span⟩ := t
          obtain ⟨name, rfl⟩ := hident
          refine .past ?_
          split
          · exact stopsIn_function_identifier hstop bound opening name span r
          · refine stopsIn_equality hstop (by simp) ?_
            exact (hname hshort name span r).bind fun _ ts =>
              (stopping_closing opening ts).bind fun _ _ => .ok_append [] _ _
        · have hclosing : t.kind ≠ .mark .closing := fun ht => hopen ht opening rfl
          have hfalse := startsFunction_of_ne hclosing fun name hk => hident ⟨name, hk⟩
          rw [if_neg (by simp [hfalse]), if_neg (by simp [hfalse])]
          exact hequality
      | cons y front =>
        have hsame : startsFunction (y :: (front ++ t :: r)) =
            startsFunction (y :: (front ++ t :: r')) := by
          cases front with
          | nil => exact startsFunction_congr y t r r'
          | cons z front => exact startsFunction_congr y z _ _
        rw [List.cons_append, List.cons_append] at hequality hparams ⊢
        rw [← hsame]
        split
        · exact hparams
        · exact hequality
    · rwa [parseWith_of_ne hx, parseWith_of_ne hx]

end Nested

/-- How deep expressions may nest does not matter as long as there are fewer tokens before `t`. -/
theorem coupled_within {depth depth' : Nat} (hn : n ≤ depth) (hn' : n ≤ depth') :
    Coupled t r r' n (parseWithin depth) (parseWithin depth') := by
  induction n generalizing depth depth' with
  | zero => exact fun front _ hlen => absurd hlen (Nat.not_lt_zero _)
  | succ n ih =>
    obtain ⟨k, rfl⟩ := Nat.exists_eq_add_of_lt hn
    obtain ⟨k', rfl⟩ := Nat.exists_eq_add_of_lt hn'
    refine coupled_with (ih (by omega) (by omega)) (stopping_within _) (fun hpos name span rest => ?_)
      (by omega) (by omega)
    obtain ⟨depth, hdepth⟩ : ∃ depth, n + k = depth + 1 := ⟨n + k - 1, by omega⟩
    rw [hdepth]
    exact stopsIn_with_identifier (stopping_within depth) depth name span rest

theorem couples_parse {front : List Token} (hopen : Open t front) :
    Couples t r r' front.length (Expr.parse (front ++ t :: r)) (Expr.parse (front ++ t :: r')) := by
  have hwithin : Coupled t r r' (front.length + 1) (parseWithin ((front ++ t :: r).length + 1))
      (parseWithin ((front ++ t :: r').length + 1)) :=
    coupled_within (by simp) (by simp)
  exact hwithin hopen (Nat.lt_succ_self _)

theorem couples_expression {front : List Token} (hopen : Open t front) :
    Couples t r r' front.length
      (Expr.parse (front ++ t :: r) >>= fun (e, ts) => .ok (Command.expression e, ts))
      (Expr.parse (front ++ t :: r') >>= fun (e, ts) => .ok (Command.expression e, ts)) :=
  (couples_parse hopen).map Command.expression

theorem couples_front {front : List Token} (hopen : Open t front) :
    Couples t r r' front.length (Command.parseFront (front ++ t :: r))
      (Command.parseFront (front ++ t :: r')) := by
  have hexpression : Couples t r r' front.length _ _ := couples_expression hopen
  cases front with
  | nil =>
    obtain ⟨kind, span⟩ := t
    cases kind with
    | keyword word =>
      cases word with
      | letWord =>
        exact .past ((stopping_identifier r).bind fun _ ts => (stopping_assign ts).bind fun _ ts =>
          (stopping_parse ts).bind fun _ _ => .ok_append [] _ _)
      | explain => exact .past ((stopping_parse r).bind fun _ _ => .ok_append [] _ _)
      | symbols | exit | quit => exact .past List.suffix_rfl
      | _ => exact hexpression
    | _ => exact hexpression
  | cons x front =>
    have hle : front.length ≤ (x :: front).length := Nat.le_succ _
    have htake : ∀ c : Command, Couples t r r' (x :: front).length (.ok (c, front ++ t :: r))
        (.ok (c, front ++ t :: r')) := fun c => .ok c hopen.tail (Nat.lt_succ_self _)
    obtain ⟨kind, span⟩ := x
    cases kind with
    | keyword word =>
      cases word with
      | letWord =>
        have hname : Coupled t r r' (front.length + 1) parseIdentifier parseIdentifier :=
          coupled_identifier
        have hassign : Coupled t r r' (front.length + 1) Command.parseAssign Command.parseAssign :=
          coupled_assign
        refine Couples.mono ?_ hle
        refine (hname hopen.tail (Nat.lt_succ_self _)).bind (fun name front₁ hopen₁ hlen₁ => ?_)
          fun _ ts => (stopping_assign ts).bind fun _ ts => (stopping_parse ts).bind fun _ _ =>
            .ok_append [] _ _
        refine ((hassign hopen₁ (by omega)).mono hlen₁.le).bind (fun _ front₂ hopen₂ hlen₂ => ?_)
          fun _ ts => (stopping_parse ts).bind fun _ _ => .ok_append [] _ _
        exact ((couples_parse hopen₂).mono hlen₂.le).map (Command.define name)
      | explain => exact ((couples_parse hopen.tail).mono hle).map Command.explain
      | symbols => exact htake .symbols
      | exit | quit => exact htake .exit
      | _ => exact hexpression
    | _ => exact hexpression

/-- Tokens that are a whole command. -/
def Accepted (ts : List Token) : Prop :=
  ∃ c, Command.parseTokens ts = .ok c

/-- No command starts with the tokens up to the one that parsing fails at. -/
theorem not_accepted_of_error {front : List Token} (hopen : Open t front) {failure : Failure}
    (h : Command.parseTokens (front ++ t :: r) = .error failure) (hrest : failure.rest = t :: r)
    (r' : List Token) : ¬ Accepted (front ++ t :: r') := by
  rintro ⟨c, hc⟩
  have hcouples : Couples t r r' front.length _ _ := couples_front hopen
  unfold Command.parseTokens at h hc
  generalize Command.parseFront (front ++ t :: r) = x,
    Command.parseFront (front ++ t :: r') = y at h hc hcouples
  have hlong : ¬ t :: r <:+ r := fun hsuffix => by simpa using hsuffix.length_le
  cases hcouples with
  | error cause front => cases hc
  | @ok c front _ _ => cases front <;> simp at hc
  | past hpast =>
    cases x with
    | error failure' =>
      cases h
      exact hlong (hrest ▸ hpast.1)
    | ok result =>
      obtain ⟨c, rest⟩ := result
      cases rest with
      | nil => cases h
      | cons u rest =>
        obtain ⟨hleft, -⟩ := fail_eq_error .trailingInput trivial h
        exact hlong (hrest ▸ hleft.trans hpast)

/-- Tokens that start a phrase of the grammar start a command. -/
theorem Blames.exists_accepted {ts : List Token} {failure : Failure}
    (h : Blames Sentence ts failure) :
    ∃ front, ts = front ++ failure.rest ∧ ∃ more, Accepted (front ++ more) := by
  obtain ⟨-, front, hts, ks, c, hs⟩ := h
  refine ⟨front, hts, ks.map fun kind => ⟨kind, .point 0⟩, c, parseTokens_of_sentence ?_⟩
  simpa [Function.comp_def] using hs

/-- An error points at the first token that cannot go on.  The tokens before it start some command, and
the tokens up to and including it start none, unless it closes a parenthesis that the token before it
opens; an error at the end of the line means that the line is no command by itself.  The cause is an
invalid character exactly where the token is one. -/
theorem error_at_first_offending (line : TokenLine) (err : ParseError)
    (h : Command.ofTokenLine line = .error err) :
    ∃ front rest, line.tokens = front ++ rest ∧
      err.span = (rest.head?.map Token.span).getD line.stop ∧
      err.found = rest.head?.map Token.kind ∧
      (∃ more, Accepted (front ++ more)) ∧
      (∀ t after, rest = t :: after → Open t front → ∀ more, ¬ Accepted (front ++ t :: more)) ∧
      (rest = [] → ¬ Accepted front) ∧
      (err.cause = .invalidCharacter ↔ ∃ t after, rest = t :: after ∧ t.kind = .invalid) := by
  obtain ⟨tokens, stop⟩ := line
  unfold Command.ofTokenLine at h
  dsimp only at h ⊢
  cases hfail : Command.parseTokens tokens with
  | ok c =>
    rw [hfail] at h
    cases h
  | error failure =>
    rw [hfail] at h
    cases h
    rw [ParseError.ofFailure_eq]
    have hblames := blames_of_parseTokens_error hfail
    obtain ⟨front, rfl, hviable⟩ := hblames.exists_accepted
    refine ⟨front, failure.rest, rfl, rfl, rfl, hviable, ?_, ?_, ?_⟩
    · intro t after hrest hopen more
      rw [hrest] at hfail
      exact not_accepted_of_error hopen hfail hrest more
    · rintro hrest ⟨c, hc⟩
      rw [hrest, List.append_nil, hc] at hfail
      cases hfail
    · refine hblames.1.trans ?_
      cases failure.rest <;> simp

/-- The line `(a,` fails at its comma. -/
theorem error_at_first_offending_comma :
    let opening : Token := ⟨.mark .opening, ⟨0, 1⟩⟩
    let name : Token := ⟨.identifier "a", ⟨1, 2⟩⟩
    let comma : Token := ⟨.mark .comma, ⟨2, 3⟩⟩
    Command.ofTokenLine ⟨[opening, name, comma], .point 3⟩ =
        .error ⟨.unclosedDelimiter ⟨0, 1⟩, some (.mark .comma), ⟨2, 3⟩⟩ ∧
      (∃ more, Accepted ([opening, name] ++ more)) ∧
      ∀ more, ¬ Accepted ([opening, name] ++ comma :: more) := by
  intro opening name comma
  have herror : Command.ofTokenLine ⟨[opening, name, comma], .point 3⟩ =
      .error ⟨.unclosedDelimiter ⟨0, 1⟩, some (.mark .comma), ⟨2, 3⟩⟩ := rfl
  obtain ⟨front, rest, htokens, hspan, -, hviable, hstop, -, -⟩ :=
    error_at_first_offending _ _ herror
  -- Only the comma stands where the error points.
  obtain ⟨rfl, rfl⟩ : front = [opening, name] ∧ rest = [comma] := by
    rcases front with _ | ⟨x, _ | ⟨y, _ | ⟨z, front⟩⟩⟩
    · cases htokens
      exact absurd hspan (by decide)
    · cases htokens
      exact absurd hspan (by decide)
    · cases htokens
      exact ⟨rfl, rfl⟩
    · obtain ⟨-, htokens⟩ := List.cons.inj htokens
      obtain ⟨-, htokens⟩ := List.cons.inj htokens
      obtain ⟨-, hnil⟩ := List.cons.inj htokens
      obtain ⟨-, rfl⟩ := List.append_eq_nil_iff.mp hnil.symm
      exact absurd hspan (by decide)
  exact ⟨herror, hviable, hstop comma [] rfl (fun hclosing => nomatch hclosing)⟩

/-- Only an arrow tells whether a pair of parentheses can go on. -/
example :
    let opening : Token := ⟨.mark .opening, ⟨0, 1⟩⟩
    let closing : Token := ⟨.mark .closing, ⟨1, 2⟩⟩
    Command.ofTokenLine ⟨[opening, closing], .point 2⟩ =
        .error ⟨.expectedExpression, some (.mark .closing), ⟨1, 2⟩⟩ ∧
      Accepted ([opening, closing] ++ [⟨.mark .arrow, ⟨2, 4⟩⟩, ⟨.identifier "a", ⟨4, 5⟩⟩]) :=
  ⟨rfl, _, rfl⟩

end Grammar

end Reckoner
