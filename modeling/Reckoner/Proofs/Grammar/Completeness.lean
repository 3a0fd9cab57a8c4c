import Mathlib
import Reckoner.Proofs.Grammar.Soundness

/-! # What the grammar derives is parsed

Each parser is complete for a relation of the grammar: it takes up exactly the tokens of a phrase
when these are followed by tokens that cannot carry the phrase on.  The lookahead at a parenthesis
and the loops over operators are where a parser could commit itself too early; a phrase starts with
few kinds of tokens, and an operator that follows an operand binds looser than the operand.

Together with soundness this says that the parser decides the grammar, and that the grammar is
unambiguous.
-/
namespace Reckoner.Grammar

open Reckoner.Expr
open Token (Kind Mark)

def starts : Kind → Bool
  | .number _ | .identifier _ => true
  | .keyword .trueWord | .keyword .falseWord => true
  | .mark .hash | .mark .opening | .mark .minus => true
  | _ => false

theorem Phrase.starts_head : ∀ {f : Form} {ks : List Kind} {e : Expr}, Phrase f ks e →
    ∃ k ks', ks = k :: ks' ∧ starts k
  | _, _, _, .function _ _ => ⟨_, _, rfl, rfl⟩
  | _, _, _, .operation h => h.starts_head
  | _, _, _, .chain _ h _ => by
    obtain ⟨k, ks', rfl, hk⟩ := h.starts_head
    exact ⟨k, _, rfl, hk⟩
  | _, _, _, .negativeNumber _ => ⟨_, _, rfl, rfl⟩
  | _, _, _, .negative _ _ => ⟨_, _, rfl, rfl⟩
  | _, _, _, .plain h => h.starts_head
  | _, _, _, .number _ => ⟨_, _, rfl, rfl⟩
  | _, _, _, .true => ⟨_, _, rfl, rfl⟩
  | _, _, _, .false => ⟨_, _, rfl, rfl⟩
  | _, _, _, .last => ⟨_, _, rfl, rfl⟩
  | _, _, _, .name _ => ⟨_, _, rfl, rfl⟩
  | _, _, _, .call _ _ => ⟨_, _, rfl, rfl⟩
  | _, _, _, .parenthesized _ => ⟨_, _, rfl, rfl⟩

def Form.strength : Form → Nat
  | expression | equality => 1
  | comparison => 2
  | sum => 3
  | product => 4
  | negation | primary => 5

theorem Form.strength_operand {f g : Form} (h : f.operand? = some g) :
    g.strength = f.strength + 1 := by
  cases f <;> cases h <;> rfl

/-- Tokens that do not carry on a phrase of a form: no parenthesis follows that would make a name a
call, and no operator that takes the end of the phrase as its operand. -/
def Stops (f : Form) (rest : List Token) : Prop :=
  ∀ t ts, rest = t :: ts → t.kind ≠ .mark .opening ∧
    ∀ m g op, t.kind = .mark m → Links g m op → g.strength < f.strength

theorem Stops.mono {f g : Form} {rest : List Token} (h : Stops f rest)
    (hfg : f.strength ≤ g.strength) : Stops g rest := by
  intro t ts hrest
  obtain ⟨hopening, hlinks⟩ := h t ts hrest
  exact ⟨hopening, fun m g' op hm hl => Nat.lt_of_lt_of_le (hlinks m g' op hm hl) hfg⟩

theorem stops_nil (f : Form) : Stops f [] := by
  intro t ts h
  cases h

theorem stops_closing (f : Form) (span : Span) (rest : List Token) :
    Stops f (⟨.mark .closing, span⟩ :: rest) := by
  intro t ts h
  cases h
  refine ⟨by simp, fun m g op hm hl => ?_⟩
  cases hm
  cases hl

theorem stops_comma (f : Form) (span : Span) (rest : List Token) :
    Stops f (⟨.mark .comma, span⟩ :: rest) := by
  intro t ts h
  cases h
  refine ⟨by simp, fun m g op hm hl => ?_⟩
  cases hm
  cases hl

/-- An operator of a form does not carry on an operand of the form. -/
theorem stops_link {f g : Form} {m : Mark} {op : Operator} (hg : f.operand? = some g)
    (hm : Links f m op) (span : Span) (rest : List Token) :
    Stops g (⟨.mark m, span⟩ :: rest) := by
  intro t ts h
  cases h
  constructor
  · intro h
    cases h
    cases hm
  · intro m' f' op' hm' hl
    cases hm'
    have hf : f' = f := by cases hm <;> cases hl <;> rfl
    rw [hf, Form.strength_operand hg]
    omega

/-- A parser takes up exactly the tokens that stand in a relation to something, if there are fewer
than `n` and suitable tokens follow. -/
def Complete {α : Type} (n : Nat) (p : Parser α) (r : List Kind → α → Prop)
    (follows : List Token → Prop) : Prop :=
  ∀ ⦃front : List Token⦄ ⦃ks : List Kind⦄ ⦃a : α⦄ ⦃rest : List Token⦄,
    front.map Token.kind = ks → r ks a → front.length < n → follows rest →
      p (front ++ rest) = .ok (a, rest)

theorem complete_parameter (n : Nat) (follows : List Token → Prop) :
    Complete n parseParameter Declaration follows := by
  intro front ks p rest hks hp _ _
  obtain ⟨name, hty⟩ := hp
  obtain ⟨⟨_, s₁⟩, ts₁, rfl, rfl, h₁⟩ := List.map_eq_cons_iff.mp hks
  obtain ⟨⟨_, s₂⟩, ts₂, rfl, rfl, h₂⟩ := List.map_eq_cons_iff.mp h₁
  cases hty with
  | number =>
    obtain ⟨⟨_, s₃⟩, ts₃, rfl, rfl, h₃⟩ := List.map_eq_cons_iff.mp h₂
    cases List.map_eq_nil_iff.mp h₃
    rfl
  | boolean =>
    obtain ⟨⟨_, s₃⟩, ts₃, rfl, rfl, h₃⟩ := List.map_eq_cons_iff.mp h₂
    cases List.map_eq_nil_iff.mp h₃
    rfl

section Lists

variable {α : Type} {item : Parser α} {r : List Kind → α → Prop} {n : Nat}

/-- A comma follows every item but the last, and a closing parenthesis the last. -/
theorem complete_items (hitem : Complete n item r (Stops .expression)) (bound : Nat) :
    ∀ (span : Span) (rest : List Token) ⦃front : List Token⦄ ⦃ks : List Kind⦄ ⦃as : List α⦄,
      front.map Token.kind = ks → Commas r ks as → front.length < n → front.length ≤ bound →
        parseItems item bound (front ++ ⟨.mark .closing, span⟩ :: rest) =
          .ok (as, ⟨.mark .closing, span⟩ :: rest) := by
  induction bound with
  | zero =>
    intro span rest front ks as hks has hn hbound
    cases has with
    | one ha => simp [parseItems, hitem hks ha hn (stops_closing _ _ _)]
    | more ha has =>
      have hempty := List.length_eq_zero_iff.mp (Nat.le_zero.mp hbound)
      subst hempty
      simp at hks
  | succ bound ih =>
    intro span rest front ks as hks has hn hbound
    cases has with
    | one ha => simp [parseItems, hitem hks ha hn (stops_closing _ _ _)]
    | more ha has =>
      obtain ⟨front₁, tail, rfl, h₁, htail⟩ := List.map_eq_append_iff.mp hks
      obtain ⟨⟨_, comma⟩, front₂, rfl, rfl, h₂⟩ := List.map_eq_cons_iff.mp htail
      simp only [List.length_append, List.length_cons] at hn hbound
      have hfirst := hitem h₁ ha (by omega)
        (stops_comma .expression comma (front₂ ++ ⟨.mark .closing, span⟩ :: rest))
      have hothers := ih span rest h₂ has (by omega) (by omega)
      simp [parseItems, hfirst, hothers]

theorem complete_list (hitem : Complete n item r (Stops .expression))
    (hstart : ∀ ks a, r ks a → ∃ k ks', ks = k :: ks' ∧ starts k) {bound : Nat} (hbound : n ≤ bound)
    (opening span : Span) (rest : List Token) {front : List Token} {ks : List Kind} {as : List α}
    (hks : front.map Token.kind = ks) (has : Listed r ks as) (hlen : front.length < n) :
    parseList bound item opening (front ++ ⟨.mark .closing, span⟩ :: rest) = .ok (as, rest) := by
  cases has with
  | none =>
    cases List.map_eq_nil_iff.mp hks
    rfl
  | some has =>
    have hitems := complete_items hitem bound span rest hks has hlen (by omega)
    -- The list does not start with the closing parenthesis, since an item starts it.
    obtain ⟨k, ks', rfl, hk⟩ : ∃ k ks', ks = k :: ks' ∧ starts k := by
      cases has with
      | one ha => exact hstart _ _ ha
      | more ha _ =>
        obtain ⟨k, ks', rfl, hk⟩ := hstart _ _ ha
        exact ⟨k, _, rfl, hk⟩
    obtain ⟨⟨_, s⟩, ts, rfl, rfl, -⟩ := List.map_eq_cons_iff.mp hks
    rw [List.cons_append] at hitems ⊢
    simp only [parseList]
    split
    · simp_all [starts]
    · simp [hitems, parseClosing]

end Lists

theorem parseNegation_of_primary {primary : Parser Expr} {front : List Token} {ks : List Kind}
    {e : Expr} (hks : front.map Token.kind = ks) (h : Phrase .primary ks e) (rest : List Token) :
    parseNegation primary (front ++ rest) = primary (front ++ rest) := by
  have hminus : ∃ k ks', ks = k :: ks' ∧ k ≠ .mark .minus := by
    cases h with
    | chain hg _ _ => cases hg
    | number _ => exact ⟨_, _, rfl, by simp⟩
    | true => exact ⟨_, _, rfl, by simp⟩
    | false => exact ⟨_, _, rfl, by simp⟩
    | last => exact ⟨_, _, rfl, by simp⟩
    | name _ => exact ⟨_, _, rfl, by simp⟩
    | call _ _ => exact ⟨_, _, rfl, by simp⟩
    | parenthesized _ => exact ⟨_, _, rfl, by simp⟩
  obtain ⟨k, ks', rfl, hk⟩ := hminus
  obtain ⟨⟨_, s⟩, ts, rfl, rfl, -⟩ := List.map_eq_cons_iff.mp hks
  rw [List.cons_append]
  unfold parseNegation
  split
  · simp_all
  · rfl

theorem complete_negation {n : Nat} {primary : Parser Expr}
    (hp : Complete n primary (Phrase .primary) (Stops .primary)) :
    Complete n (parseNegation primary) (Phrase .negation) (Stops .negation) := by
  intro front
  induction front with
  | nil =>
    intro ks e rest hks h hlen hrest
    subst hks
    obtain ⟨k, ks', hnil, -⟩ := h.starts_head
    cases hnil
  | cons t front ih =>
    intro ks e rest hks h hlen hrest
    have hlen' : front.length < n := Nat.lt_of_succ_lt hlen
    cases h with
    | chain hg _ _ => cases hg
    | negativeNumber h =>
      obtain ⟨⟨_, s⟩, ts, heq, rfl, hks⟩ := List.map_eq_cons_iff.mp hks
      cases heq
      simp [parseNegation, ih hks h hlen' hrest, negate]
    | negative h hne =>
      obtain ⟨⟨_, s⟩, ts, heq, rfl, hks⟩ := List.map_eq_cons_iff.mp hks
      cases heq
      simp only [List.cons_append, parseNegation, ih hks h hlen' hrest, ok_bind]
      unfold negate
      split
      · exact absurd rfl (hne _)
      · rfl
    | plain h =>
      rw [parseNegation_of_primary hks h]
      exact hp hks h hlen hrest

section Levels

variable {f g : Form} {operand : Parser Expr} {n : Nat}

/-- What follows an operand, the operators of its form or what stops the form, does not carry the
operand on. -/
theorem Tail.stops {front : List Token} {ks : List Kind} {links : List (Operator × Expr)}
    {rest : List Token} (htail : Tail f ks links) (hg : f.operand? = some g)
    (hks : front.map Token.kind = ks) (hrest : Stops f rest) : Stops g (front ++ rest) := by
  cases htail with
  | nil =>
    cases List.map_eq_nil_iff.mp hks
    apply hrest.mono
    rw [Form.strength_operand hg]
    omega
  | cons _ hm _ _ =>
    obtain ⟨⟨_, span⟩, ts, rfl, rfl, -⟩ := List.map_eq_cons_iff.mp hks
    exact stops_link hg hm span _

/-- The loop over the operators of a form stops where no operator of the form follows. -/
theorem parseOperators_of_stops {rest : List Token} (hrest : Stops f rest) (bound : Nat)
    (left : Expr) : parseOperators f.operator? operand bound left rest = .ok (left, rest) := by
  rcases rest with _ | ⟨⟨kind, span⟩, rest⟩
  · cases bound <;> rfl
  · cases bound with
    | zero => rfl
    | succ bound =>
      cases kind with
      | mark m =>
        simp only [parseOperators]
        split
        · rename_i op hm
          have hlt := (hrest _ _ rfl).2 m f op rfl (operator?_eq_some_iff.mp hm)
          exact absurd hlt (Nat.lt_irrefl _)
        · rfl
      | keyword _ | number _ | identifier _ | invalid => rfl

theorem complete_operators (hg : f.operand? = some g)
    (hop : Complete n operand (Phrase g) (Stops g)) (bound : Nat) :
    ∀ ⦃front : List Token⦄ ⦃ks : List Kind⦄ ⦃links : List (Operator × Expr)⦄
      ⦃rest : List Token⦄ (left : Expr), front.map Token.kind = ks → Tail f ks links →
        front.length < n → front.length ≤ bound → Stops f rest →
          parseOperators f.operator? operand bound left (front ++ rest) =
            .ok (chained left links, rest) := by
  induction bound with
  | zero =>
    intro front ks links rest left hks htail _ hbound hrest
    cases htail with
    | nil =>
      cases List.map_eq_nil_iff.mp hks
      exact parseOperators_of_stops hrest 0 left
    | cons _ _ _ _ =>
      have hempty := List.length_eq_zero_iff.mp (Nat.le_zero.mp hbound)
      subst hempty
      simp at hks
  | succ bound ih =>
    intro front ks links rest left hks htail hn hbound hrest
    cases htail with
    | nil =>
      cases List.map_eq_nil_iff.mp hks
      exact parseOperators_of_stops hrest (bound + 1) left
    | @cons _ g' m op _ ks' e links hg' hm h htail =>
      cases hg.symm.trans hg'
      obtain ⟨⟨_, span⟩, ts, rfl, rfl, hts⟩ := List.map_eq_cons_iff.mp hks
      obtain ⟨front₁, front₂, rfl, h₁, h₂⟩ := List.map_eq_append_iff.mp hts
      simp only [List.length_append, List.length_cons] at hn hbound
      have hfirst := hop h₁ h (by omega) (htail.stops hg h₂ hrest)
      have hothers := ih (.binary op left e) h₂ htail (by omega) (by omega) hrest
      simp only [List.cons_append, List.append_assoc, parseOperators,
        operator?_eq_some_iff.mpr hm, hfirst, ok_bind, hothers]
      rfl

theorem complete_level (hg : f.operand? = some g)
    (hop : Complete n operand (Phrase g) (Stops g)) {bound : Nat} (hbound : n ≤ bound + 1) :
    Complete n (parseLevel bound f.operator? operand) (Phrase f) (Stops f) := by
  intro front ks e rest hks h hlen hrest
  -- Only a chain is a phrase of a form with operands.
  obtain ⟨ks₁, ks₂, first, links, rfl, rfl, hfirst, htail⟩ : ∃ ks₁ ks₂ first links,
      ks = ks₁ ++ ks₂ ∧ e = chained first links ∧ Phrase g ks₁ first ∧ Tail f ks₂ links := by
    cases h with
    | chain hg' hfirst htail =>
      cases hg.symm.trans hg'
      exact ⟨_, _, _, _, rfl, rfl, hfirst, htail⟩
    | _ => cases hg
  obtain ⟨front₁, front₂, rfl, h₁, h₂⟩ := List.map_eq_append_iff.mp hks
  rw [List.length_append] at hlen
  have hfollows := htail.stops hg h₂ hrest
  have hoperand := hop h₁ hfirst (by omega) hfollows
  have hoperators := complete_operators hg hop bound first h₂ htail (by omega) (by omega) hrest
  simp only [parseLevel, List.append_assoc, hoperand, ok_bind, hoperators]

end Levels

section Nested

variable {nested : Parser Expr} {n : Nat}

theorem starts_declaration (ks : List Kind) (p : Parameter) (h : Declaration ks p) :
    ∃ k ks', ks = k :: ks' ∧ starts k := by
  cases h
  exact ⟨_, _, rfl, rfl⟩

/-- The lookahead at a parenthesis recognises every list of parameters. -/
theorem startsFunction_of_listed {front : List Token} {ks : List Kind} {ps : List Parameter}
    (hks : front.map Token.kind = ks) (hps : Listed Declaration ks ps) (s s' : Span)
    (rest : List Token) :
    startsFunction (front ++ ⟨.mark .closing, s⟩ :: ⟨.mark .arrow, s'⟩ :: rest) = true := by
  cases hps with
  | none =>
    cases List.map_eq_nil_iff.mp hks
    rfl
  | some hps =>
    obtain ⟨name, ks', rfl⟩ : ∃ name ks', ks = .identifier name :: .mark .colon :: ks' := by
      cases hps with
      | one hp =>
        cases hp
        exact ⟨_, _, rfl⟩
      | more hp _ =>
        cases hp
        exact ⟨_, _, rfl⟩
    obtain ⟨⟨_, s₁⟩, ts₁, rfl, rfl, h₁⟩ := List.map_eq_cons_iff.mp hks
    obtain ⟨⟨_, s₂⟩, ts₂, rfl, rfl, -⟩ := List.map_eq_cons_iff.mp h₁
    rfl

/-- A name that starts a phrase is not followed by a colon. -/
theorem Phrase.not_colon : ∀ {f : Form} {ks : List Kind} {e : Expr}, Phrase f ks e →
    ∀ (n : String) (ks' : List Kind), ks ≠ .identifier n :: .mark .colon :: ks'
  | _, _, _, .function _ _ => by simp
  | _, _, _, .operation h => h.not_colon
  | _, _, _, .chain _ h hs => by
    intro n ks' heq
    have ih := h.not_colon
    obtain ⟨k, ks₁, rfl, -⟩ := h.starts_head
    rw [List.cons_append] at heq
    cases ks₁ with
    | nil =>
      cases hs with
      | nil => simp at heq
      | cons _ hm _ _ =>
        cases heq
        cases hm
    | cons k' ks₁ =>
      cases heq
      exact ih _ _ rfl
  | _, _, _, .negativeNumber _ => by simp
  | _, _, _, .negative _ _ => by simp
  | _, _, _, .plain h => h.not_colon
  | _, _, _, .number _ => by simp
  | _, _, _, .true => by simp
  | _, _, _, .false => by simp
  | _, _, _, .last => by simp
  | _, _, _, .name _ => by simp
  | _, _, _, .call _ _ => by simp
  | _, _, _, .parenthesized _ => by simp

/-- An operation that starts with a parenthesis starts with an expression in parentheses. -/
theorem Phrase.opening : ∀ {f : Form} {ks : List Kind} {e : Expr}, Phrase f ks e →
    f ≠ .expression → ∀ ks' : List Kind, ks = .mark .opening :: ks' →
      ∃ inner ks'' e', ks' = inner ++ .mark .closing :: ks'' ∧ Phrase .expression inner e'
  | _, _, _, .function _ _ => fun hf => absurd rfl hf
  | _, _, _, .operation _ => fun hf => absurd rfl hf
  | f, _, _, .chain hg h _ => by
    intro hf ks' heq
    have ih := h.opening (by cases f <;> cases hg <;> simp)
    obtain ⟨k, ks₁, rfl, -⟩ := h.starts_head
    cases heq
    obtain ⟨inner, ks'', e', rfl, hinner⟩ := ih _ rfl
    exact ⟨inner, ks'' ++ _, e', List.append_assoc _ _ _, hinner⟩
  | _, _, _, .negativeNumber _ => by simp
  | _, _, _, .negative _ _ => by simp
  | _, _, _, .plain h => fun _ => h.opening (by simp)
  | _, _, _, .number _ => by simp
  | _, _, _, .true => by simp
  | _, _, _, .false => by simp
  | _, _, _, .last => by simp
  | _, _, _, .name _ => by simp
  | _, _, _, .call _ _ => by simp
  | _, _, _, .parenthesized h => by
    intro _ ks' heq
    cases heq
    exact ⟨_, [], _, rfl, h⟩

/-- The lookahead at a parenthesis takes no expression in parentheses for a list of parameters. -/
theorem not_startsFunction {inner ks : List Kind} {e : Expr} (h : Phrase .expression inner e)
    {ts : List Token} (hts : ts.map Token.kind = inner ++ .mark .closing :: ks)
    (rest : List Token) : startsFunction (ts ++ rest) = false := by
  obtain ⟨_, inner', rfl, hk⟩ := h.starts_head
  obtain ⟨⟨k, s₁⟩, ts₁, rfl, rfl, h₁⟩ := List.map_eq_cons_iff.mp hts
  have hcolon : ∀ n k' ks', k = .identifier n →
      inner' ++ .mark .closing :: ks = k' :: ks' → k' ≠ .mark .colon := by
    rintro n k' ks' rfl heq rfl
    cases inner' with
    | nil => cases heq
    | cons k' inner' =>
      cases heq
      exact h.not_colon _ _ rfl
  obtain ⟨k', ks', hks'⟩ : ∃ k' ks', inner' ++ .mark .closing :: ks = k' :: ks' := by
    cases inner' <;> exact ⟨_, _, rfl⟩
  obtain ⟨⟨_, s₂⟩, ts₂, rfl, rfl, -⟩ := List.map_eq_cons_iff.mp (h₁.trans hks')
  rw [List.cons_append, List.cons_append]
  simp only [startsFunction]
  split
  · simp_all [starts]
  · rename_i heq
    cases heq
    exact absurd rfl (hcolon _ _ _ rfl hks')
  · rfl

theorem complete_primary (hn : Complete n nested (Phrase .expression) (Stops .expression))
    {bound : Nat} (hbound : n ≤ bound) :
    Complete (n + 1) (parsePrimary bound nested) (Phrase .primary) (Stops .primary) := by
  intro front ks e rest hks h hlen hrest
  cases h with
  | chain hg _ _ => cases hg
  | number x =>
    obtain ⟨⟨_, s⟩, ts, rfl, rfl, hts⟩ := List.map_eq_cons_iff.mp hks
    cases List.map_eq_nil_iff.mp hts
    rfl
  | true =>
    obtain ⟨⟨_, s⟩, ts, rfl, rfl, hts⟩ := List.map_eq_cons_iff.mp hks
    cases List.map_eq_nil_iff.mp hts
    rfl
  | false =>
    obtain ⟨⟨_, s⟩, ts, rfl, rfl, hts⟩ := List.map_eq_cons_iff.mp hks
    cases List.map_eq_nil_iff.mp hts
    rfl
  | last =>
    obtain ⟨⟨_, s⟩, ts, rfl, rfl, hts⟩ := List.map_eq_cons_iff.mp hks
    cases List.map_eq_nil_iff.mp hts
    rfl
  | name name =>
    obtain ⟨⟨_, s⟩, ts, rfl, rfl, hts⟩ := List.map_eq_cons_iff.mp hks
    cases List.map_eq_nil_iff.mp hts
    rw [List.cons_append, List.nil_append]
    simp only [parsePrimary]
    split
    · simp_all
    · simp_all
    · simp_all
    · simp_all
    · rename_i heq
      cases heq
      exact absurd rfl (hrest _ _ rfl).1
    · rename_i heq
      cases heq
      rfl
    · simp_all
    · rename_i heq _
      exact absurd rfl (heq _ _ _)
  | call f hargs =>
    obtain ⟨⟨_, s₁⟩, ts₁, rfl, rfl, h₁⟩ := List.map_eq_cons_iff.mp hks
    obtain ⟨⟨_, s₂⟩, ts₂, rfl, rfl, h₂⟩ := List.map_eq_cons_iff.mp h₁
    obtain ⟨front, ts₃, rfl, h₃, h₄⟩ := List.map_eq_append_iff.mp h₂
    obtain ⟨⟨_, s₄⟩, ts₄, rfl, rfl, h₅⟩ := List.map_eq_cons_iff.mp h₄
    cases List.map_eq_nil_iff.mp h₅
    simp only [List.length_cons, List.length_append, List.length_nil] at hlen
    have hlist := complete_list hn (fun _ _ h => h.starts_head) hbound s₂ s₄ rest h₃ hargs
      (by omega)
    simp [parsePrimary, hlist]
  | parenthesized h =>
    obtain ⟨⟨_, s₁⟩, ts₁, rfl, rfl, h₁⟩ := List.map_eq_cons_iff.mp hks
    obtain ⟨front, ts₂, rfl, h₂, h₃⟩ := List.map_eq_append_iff.mp h₁
    obtain ⟨⟨_, s₃⟩, ts₃, rfl, rfl, h₄⟩ := List.map_eq_cons_iff.mp h₃
    cases List.map_eq_nil_iff.mp h₄
    simp only [List.length_cons, List.length_append, List.length_nil] at hlen
    have hinner := hn h₂ h (by omega) (stops_closing .expression s₃ rest)
    simp [parsePrimary, hinner, parseClosing]

theorem complete_equality (hn : Complete n nested (Phrase .expression) (Stops .expression))
    {bound : Nat} (hbound : n ≤ bound) :
    Complete (n + 1) (parseEquality bound nested) (Phrase .equality) (Stops .equality) := by
  have hnegation := complete_negation (complete_primary hn hbound)
  have hproduct := complete_level (f := .product) rfl hnegation (Nat.succ_le_succ hbound)
  have hsum := complete_level (f := .sum) rfl hproduct (Nat.succ_le_succ hbound)
  have hcomparison := complete_level (f := .comparison) rfl hsum (Nat.succ_le_succ hbound)
  exact complete_level (f := .equality) rfl hcomparison (Nat.succ_le_succ hbound)

theorem complete_with (hn : Complete n nested (Phrase .expression) (Stops .expression))
    {bound : Nat} (hbound : n ≤ bound) :
    Complete (n + 1) (parseWith bound nested) (Phrase .expression) (Stops .expression) := by
  intro front ks e rest hks h hlen hrest
  cases h with
  | chain hg _ _ => cases hg
  | function hps he =>
    obtain ⟨⟨_, s₁⟩, ts₁, rfl, rfl, h₁⟩ := List.map_eq_cons_iff.mp hks
    obtain ⟨front, ts₂, rfl, h₂, h₃⟩ := List.map_eq_append_iff.mp h₁
    obtain ⟨⟨_, s₃⟩, ts₃, rfl, rfl, h₄⟩ := List.map_eq_cons_iff.mp h₃
    obtain ⟨⟨_, s₄⟩, body, rfl, rfl, h₅⟩ := List.map_eq_cons_iff.mp h₄
    simp only [List.length_cons, List.length_append] at hlen
    have hstart := startsFunction_of_listed h₂ hps s₃ s₄ (body ++ rest)
    have hparams := complete_list (complete_parameter n (Stops .expression)) starts_declaration
      hbound s₁ s₃ (⟨.mark .arrow, s₄⟩ :: (body ++ rest)) h₂ hps (by omega)
    have hbody := hn h₅ he (by omega) hrest
    simp [parseWith, hstart, parseFunction, hparams, parseArrow, hbody]
  | operation h =>
    have hequality := complete_equality hn hbound hks h hlen hrest
    obtain ⟨k, ks', rfl, -⟩ := h.starts_head
    obtain ⟨⟨_, s⟩, ts, rfl, rfl, hts⟩ := List.map_eq_cons_iff.mp hks
    rw [List.cons_append] at hequality ⊢
    simp only [parseWith]
    split
    · rename_i opening rest' heq
      cases heq
      obtain ⟨inner, ks'', e', rfl, hinner⟩ := h.opening (by simp) _ rfl
      rw [not_startsFunction hinner hts rest]
      exact hequality
    · exact hequality

end Nested

theorem complete_within (depth : Nat) :
    Complete depth (parseWithin depth) (Phrase .expression) (Stops .expression) := by
  induction depth with
  | zero =>
    intro front ks e rest _ _ hlen _
    exact absurd hlen (Nat.not_lt_zero _)
  | succ depth ih => exact complete_with ih (Nat.le_refl _)

/-- A phrase is parsed as the expression it denotes, and no token after it is taken up. -/
theorem parse_of_phrase {front rest : List Token} {ks : List Kind} {e : Expr}
    (hks : front.map Token.kind = ks) (h : Phrase .expression ks e)
    (hrest : Stops .expression rest) : Expr.parse (front ++ rest) = .ok (e, rest) := by
  apply complete_within _ hks h _ hrest
  rw [List.length_append]
  omega

theorem parseFront_of_sentence {ts : List Token} {ks : List Kind} {c : Command}
    (hks : ts.map Token.kind = ks) (h : Sentence ks c) : Command.parseFront ts = .ok (c, []) := by
  cases h with
  | define n h =>
    obtain ⟨⟨_, s₁⟩, ts₁, rfl, rfl, h₁⟩ := List.map_eq_cons_iff.mp hks
    obtain ⟨⟨_, s₂⟩, ts₂, rfl, rfl, h₂⟩ := List.map_eq_cons_iff.mp h₁
    obtain ⟨⟨_, s₃⟩, ts₃, rfl, rfl, h₃⟩ := List.map_eq_cons_iff.mp h₂
    have he := parse_of_phrase h₃ h (stops_nil _)
    rw [List.append_nil] at he
    simp [Command.parseFront, parseIdentifier, Command.parseAssign, he]
  | explain h =>
    obtain ⟨⟨_, s₁⟩, ts₁, rfl, rfl, h₁⟩ := List.map_eq_cons_iff.mp hks
    have he := parse_of_phrase h₁ h (stops_nil _)
    rw [List.append_nil] at he
    simp [Command.parseFront, he]
  | symbols =>
    obtain ⟨⟨_, s₁⟩, ts₁, rfl, rfl, h₁⟩ := List.map_eq_cons_iff.mp hks
    cases List.map_eq_nil_iff.mp h₁
    rfl
  | exit =>
    obtain ⟨⟨_, s₁⟩, ts₁, rfl, rfl, h₁⟩ := List.map_eq_cons_iff.mp hks
    cases List.map_eq_nil_iff.mp h₁
    rfl
  | quit =>
    obtain ⟨⟨_, s₁⟩, ts₁, rfl, rfl, h₁⟩ := List.map_eq_cons_iff.mp hks
    cases List.map_eq_nil_iff.mp h₁
    rfl
  | expression h =>
    have he := parse_of_phrase hks h (stops_nil _)
    rw [List.append_nil] at he
    obtain ⟨_, ks', rfl, hk⟩ := h.starts_head
    obtain ⟨⟨k, s⟩, ts, rfl, rfl, -⟩ := List.map_eq_cons_iff.mp hks
    simp only [Command.parseFront]
    split
    case h_6 => simp [he]
    all_goals
      rename_i heq
      cases heq
      cases hk

/-- A sentence is parsed as the command it denotes. -/
theorem parseTokens_of_sentence {ts : List Token} {c : Command}
    (h : Sentence (ts.map Token.kind) c) : Command.parseTokens ts = .ok c := by
  simp [Command.parseTokens, parseFront_of_sentence rfl h]

/-- The parser accepts exactly the sentences of the grammar, each as the command it denotes, and a
sentence denotes one command only. -/
theorem parseTokens_eq_ok_iff_sentence (ts : List Token) :
    (∀ c, Command.parseTokens ts = .ok c ↔ Sentence (ts.map Token.kind) c) ∧
      ∀ c c', Sentence (ts.map Token.kind) c → Sentence (ts.map Token.kind) c' → c = c' := by
  refine ⟨fun c => ⟨sentence_of_parseTokens, parseTokens_of_sentence⟩, fun c c' h h' => ?_⟩
  have heq := (parseTokens_of_sentence h).symm.trans (parseTokens_of_sentence h')
  exact Except.ok.inj heq

end Reckoner.Grammar
