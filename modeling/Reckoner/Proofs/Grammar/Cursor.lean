import Mathlib
import Reckoner.Command.Cursor
import Reckoner.Proofs.Grammar.Bounds
import Reckoner.Proofs.Grammar.Lookahead
import Reckoner.Proofs.Token.Cursor

/-! # Reading with a cursor comes to an end

Reading an expression consumes a token or fails, whichever form it turns out to have.  So every round of a
loop and everything nested starts closer to the end of the line than what it is part of, and bounds by the
number of tokens are never met.  The induction is on that number; it goes along with the parser, which says
where the cursor is after each form.
-/
namespace Reckoner.Reading

open Reckoner.Expr
open Reckoner.Grammar
open ParseError (Failure fail)
open Cursor (Before)

variable {α β : Type} {line : TokenLine} {ts rest : List Token} {c : Cursor} {m n bound count : Nat}

/-- A run goes along with a parser where fewer than a number of tokens are left, and consumes at least one
of them if it does not fail. -/
def Parses (line : TokenLine) (m : Nat) (x : Reading α) (p : Parser α) : Prop :=
  ∀ ⦃ts : List Token⦄ ⦃c : Cursor⦄, ts.length < m → Before line ts c →
    Tracks line ts.length c x (p ts)

theorem Parses.mono {x : Reading α} {p : Parser α} (h : Parses line n x p) (hmn : m ≤ n) :
    Parses line m x p :=
  fun _ _ hlen hc => h (hlen.trans_le hmn) hc

/-- A parser that takes one certain mark. -/
structure Demands (p : Parser Unit) (mark : Token.Mark) (cause : ParseError.Cause) : Prop where
  found : ∀ span rest, p (⟨.mark mark, span⟩ :: rest) = .ok ((), rest)
  missing : ∀ ts, ¬ Token.Begins mark ts → p ts = fail cause ts

theorem demands_colon : Demands parseColon .colon (.unexpectedToken "`:`") := by
  refine ⟨fun _ _ => rfl, fun ts hs => ?_⟩
  unfold parseColon
  split
  · exact absurd ⟨_, _, rfl⟩ hs
  · rfl

theorem demands_arrow : Demands parseArrow .arrow (.unexpectedToken "`->`") := by
  refine ⟨fun _ _ => rfl, fun ts hs => ?_⟩
  unfold parseArrow
  split
  · exact absurd ⟨_, _, rfl⟩ hs
  · rfl

theorem demands_assign : Demands Command.parseAssign .assign (.unexpectedToken "`=`") := by
  refine ⟨fun _ _ => rfl, fun ts hs => ?_⟩
  unfold Command.parseAssign
  split
  · exact absurd ⟨_, _, rfl⟩ hs
  · rfl

theorem demands_closing (opening : Span) :
    Demands (parseClosing opening) .closing (.unclosedDelimiter opening) := by
  refine ⟨fun _ _ => rfl, fun ts hs => ?_⟩
  unfold parseClosing
  split
  · exact absurd ⟨_, _, rfl⟩ hs
  · rfl

theorem Demands.tracks_expect {p : Parser Unit} {mark : Token.Mark} {expected : String}
    (hp : Demands p mark (.unexpectedToken expected)) (h : Before line ts c) {f : Item → Reading α}
    {g : Unit × List Token → Except Failure (α × List Token)}
    (hf : ∀ c' item rest, rest.length < ts.length → Before line rest c' →
      Tracks line n c' (f item) (g ((), rest))) :
    Tracks line n c (expect mark expected >>= f) (p ts >>= g) := by
  by_cases hs : Token.Begins mark ts
  · obtain ⟨span, rest, rfl⟩ := hs
    rw [hp.found]
    exact Reading.tracks_expect h fun c' item hc' => hf c' item rest (Nat.lt_succ_self _) hc'
  · rw [hp.missing ts hs, fail_bind]
    exact tracks_expect_fail h hs f

theorem parses_closing (opening : Span) : Parses line m (closing opening) (parseClosing opening) := by
  intro ts c hlen h
  by_cases hs : Token.Begins .closing ts
  · obtain ⟨span, rest, rfl⟩ := hs
    rw [(demands_closing opening).found]
    exact (gives_eat h).tracks fun c h => .pure h (Nat.lt_succ_self _) ()
  · rw [(demands_closing opening).missing ts hs]
    exact (gives_eat_false h hs).tracks fun c h => tracks_failHere h _

theorem parses_identifier : Parses line m identifier parseIdentifier := by
  intro ts c hlen h
  refine (gives_current h).tracks fun c h => ?_
  rcases ts with _ | ⟨⟨kind, span⟩, ts⟩
  · exact tracks_failHere h _
  · cases kind with
    | identifier name => exact tracks_advance h name
    | _ => exact tracks_failHere h _

theorem parses_typeName : Parses line m typeName parseType := by
  intro ts c hlen h
  refine (gives_current h).tracks fun c h => ?_
  rcases ts with _ | ⟨⟨kind, span⟩, ts⟩
  · exact tracks_failHere h _
  · cases kind with
    | keyword word =>
      cases word with
      | numberType => exact tracks_advance h _
      | booleanType => exact tracks_advance h _
      | _ => exact tracks_failHere h _
    | _ => exact tracks_failHere h _

theorem parses_parameter : Parses line m parameter parseParameter := by
  intro ts c hlen h
  refine (parses_identifier hlen h).bind fun name ts₁ c hlt h => ?_
  refine demands_colon.tracks_expect h fun c item ts₂ hlt₂ h => ?_
  refine (parses_typeName (Nat.lt_succ_self _) h).bind fun ty ts₃ c hlt₃ h => ?_
  exact .pure h (by omega) _

section Lists

variable {item : Reading α} {p : Parser α}

/-- What is nested after a place on the line starts after that place. -/
theorem parses_descend {since : Nat} (hp : Parses line m item p)
    (hsince : since + m < line.items.length) : Parses line m (descend item since) p := by
  intro ts c hlen h
  have hpos := h.pos_add
  exact (gives_descent h (by omega)).tracks fun c h => hp hlen h

theorem tracks_separated (hp : Parses line m item p) {since : Nat} (hlen : ts.length < m)
    (hbound : ts.length < bound) (hcount : ts.length ≤ count) (h : Before line ts c)
    (hsince : since < c.pos) :
    Tracks line ts.length c (separated item bound since) (parseItems p count ts) := by
  induction bound generalizing ts c count since with
  | zero => omega
  | succ bound ih =>
    refine (gives_round h hsince).tracks fun c h => .position ?_
    have hpos := h.pos_add
    rw [parseItems_eq]
    refine (hp hlen h).bind fun a rest c' hlt h => ?_
    by_cases hs : Token.Begins .comma rest
    · obtain ⟨span, rest, rfl⟩ := hs
      rw [List.length_cons] at hlt
      obtain ⟨count, rfl⟩ : ∃ k, count = k + 1 := ⟨count - 1, by omega⟩
      refine (gives_eat h).tracks fun c' h => ?_
      have hpos' := h.pos_add
      refine (ih (by omega) (by omega) (by omega) h (by omega)).bind fun as rest' c' hlt' h => ?_
      exact .pure h (by omega) _
    · refine (gives_eat_false h hs).tracks fun c' h => ?_
      have hlast : parseFurther p a count rest = .ok ([a], rest) := by
        unfold parseFurther
        split
        · exact absurd ⟨_, _, rfl⟩ hs
        · rfl
      dsimp only
      rw [hlast]
      exact .pure h hlt _

/-- The list in parentheses after one of them. -/
theorem tracks_list {span : Span} {item : Nat → Reading α}
    (hp : ∀ since, since + ts.length + 1 < line.items.length →
      Parses line (ts.length + 1) (item since) p)
    (hbound : ts.length < bound) (hcount : ts.length ≤ count)
    (h : Before line (⟨.mark .opening, span⟩ :: ts) c) :
    Tracks line (ts.length + 1) c (list bound item) (parseList count p span ts) := by
  have hpos := h.pos_add
  rw [List.length_cons] at hpos
  refine .position ((gives_advance h).tracks fun c' h => ?_)
  by_cases hs : Token.Begins .closing ts
  · obtain ⟨span', rest, rfl⟩ := hs
    refine (gives_check h ⟨span', rest, rfl⟩).tracks fun c' h => ?_
    refine (Gives.pure h []).tracks fun c' h => ?_
    have hclose : Gives line c' (closing span) () rest := (gives_eat h).bind fun _ h => .pure h ()
    refine hclose.tracks fun c' h => .pure h ?_ []
    simp only [List.length_cons]
    omega
  · have hitems : parseList count p span ts = parseItems p count ts >>= fun found =>
        parseClosing span found.2 >>= fun closed => .ok (found.1, closed.2) := by
      unfold parseList
      split
      · exact absurd ⟨_, _, rfl⟩ hs
      · rfl
    rw [hitems]
    refine (gives_check_false h hs).tracks fun c' h => ?_
    have hpos' := h.pos_add
    refine (tracks_separated (hp c.pos (by omega)) (Nat.lt_succ_self _) hbound hcount h
      (by omega)).bind fun as rest c' hlt h => ?_
    refine (parses_closing span (Nat.lt_succ_self _) h).bind fun _ rest' c' hlt' h => ?_
    exact .pure h (by omega) as

end Lists

section Levels

variable {operand : Reading Expr} {p : Parser Expr}

theorem parses_negation (hp : Parses line m operand p) (hbound : m ≤ bound) :
    Parses line m (negation operand bound) (parseNegation p) := by
  induction bound generalizing m with
  | zero => exact fun ts c hlen => absurd hlen (by omega)
  | succ bound ih =>
    intro ts c hlen h
    refine .position ?_
    have hpos := h.pos_add
    by_cases hs : Token.Begins .minus ts
    · obtain ⟨span, ts, rfl⟩ := hs
      rw [List.length_cons] at hlen hpos
      refine (gives_eat h).tracks fun c' h => ?_
      have hinner : Parses line (ts.length + 1) (descend (negation operand bound) c.pos)
          (parseNegation p) :=
        parses_descend (ih (hp.mono hlen.le) (by omega)) (by omega)
      refine (hinner (Nat.lt_succ_self _) h).bind fun e rest c' hlt h => ?_
      exact .pure h (Nat.lt_succ_of_lt hlt) _
    · refine (gives_eat_false h hs).tracks fun c' h => ?_
      have hoperand : parseNegation p ts = p ts := by
        unfold parseNegation
        split
        · exact absurd ⟨_, _, rfl⟩ hs
        · rfl
      rw [hoperand]
      exact hp hlen h

variable {operator? : Token.Mark → Option Operator}

theorem tracks_operators (hp : Parses line m operand p) {since : Nat} (left : Expr)
    (hlen : ts.length < m) (hbound : ts.length < bound) (hcount : ts.length ≤ count)
    (h : Before line ts c) (hsince : since < c.pos) :
    Tracks line (ts.length + 1) c (operators operator? operand bound since left)
      (parseOperators operator? p count left ts) := by
  induction bound generalizing ts c count since left with
  | zero => omega
  | succ bound ih =>
    have hpos := h.pos_add
    refine (gives_current h).tracks fun c' h => ?_
    have hpos' := h.pos_add
    rcases ts with _ | ⟨⟨kind, span⟩, ts⟩
    · have hstop : parseOperators operator? p count left [] = .ok (left, []) := by
        cases count <;> rfl
      rw [hstop]
      exact .pure h (Nat.lt_succ_self _) left
    · rw [List.length_cons] at hlen hbound hcount hpos hpos'
      obtain ⟨count, rfl⟩ : ∃ k, count = k + 1 := ⟨count - 1, by omega⟩
      cases kind with
      | mark mark =>
        simp only [Item.first, Item.ofToken, Item.mark?, Option.bind_some, parseOperators]
        cases operator? mark with
        | none => exact .pure h (Nat.lt_succ_self _) left
        | some op =>
          refine (gives_round h (by omega)).tracks fun c h => .position ?_
          have hpos := h.pos_add
          refine (gives_advance h).tracks fun c' h => ?_
          refine (hp (by omega) h).bind fun right rest c' hlt h => ?_
          have hpos' := h.pos_add
          rw [List.length_cons] at hpos
          refine (ih _ (by omega) (by omega) (by omega) h (by omega)).mono ?_
          rw [List.length_cons]
          omega
      | _ => exact .pure h (Nat.lt_succ_self _) left

theorem parses_level (hp : Parses line m operand p) (hbound : m ≤ bound) (hcount : m ≤ count + 1) :
    Parses line m (level bound operator? operand) (parseLevel count operator? p) := by
  intro ts c hlen h
  refine .position ?_
  have hpos := h.pos_add
  refine (hp hlen h).bind fun left rest c' hlt h => ?_
  have hpos' := h.pos_add
  exact (tracks_operators hp left (by omega) (by omega) (by omega) h (by omega)).mono (by omega)

end Levels

section Nested

variable {nested : Reading Expr} {p : Parser Expr}

theorem tracks_function (hn : Parses line m nested p) {span : Span} (hlen : ts.length ≤ m)
    (hbound : ts.length < bound) (hcount : ts.length ≤ count)
    (h : Before line (⟨.mark .opening, span⟩ :: ts) c) :
    Tracks line (ts.length + 1) c (function bound nested) (parseFunction count p span ts) := by
  have hpos := h.pos_add
  rw [List.length_cons] at hpos
  refine .position ?_
  refine (tracks_list (fun _ _ => parses_parameter) hbound hcount h).bind fun params ts₁ c' hlt h => ?_
  refine demands_arrow.tracks_expect h fun c' item ts₂ hlt₂ h => ?_
  have hbody : Parses line (ts₂.length + 1) (descend nested c.pos) p :=
    parses_descend (hn.mono (by omega)) (by omega)
  refine (hbody (Nat.lt_succ_self _) h).bind fun body ts₃ c' hlt₃ h => ?_
  exact .pure h (by omega) _

theorem parses_primary (hn : Parses line m nested p) (hbound : m < bound) (hcount : m ≤ count) :
    Parses line (m + 1) (primary bound nested) (parsePrimary count p) := by
  intro ts c hlen h
  have hpos := h.pos_add
  refine .position ((gives_current h).tracks fun c' h => ?_)
  rcases ts with _ | ⟨⟨kind, span⟩, ts⟩
  · exact tracks_failHere h _
  · rw [List.length_cons] at hlen hpos
    cases kind with
    | number x => exact tracks_advance h _
    | keyword word =>
      cases word with
      | trueWord => exact tracks_advance h _
      | falseWord => exact tracks_advance h _
      | _ => exact tracks_failHere h _
    | mark mark =>
      cases mark with
      | hash => exact tracks_advance h _
      | opening =>
        refine (gives_advance h).tracks fun c' h => ?_
        have hinner : Parses line (ts.length + 1) (descend nested c.pos) p :=
          parses_descend (hn.mono (by omega)) (by omega)
        refine (hinner (Nat.lt_succ_self _) h).bind fun e ts₁ c' hlt h => ?_
        refine (parses_closing span (Nat.lt_succ_self _) h).bind fun _ ts₂ c' hlt₂ h => ?_
        refine .pure h ?_ e
        rw [List.length_cons]
        omega
      | _ => exact tracks_failHere h _
    | identifier name =>
      refine (gives_advance h).tracks fun c' h => ?_
      by_cases hs : Token.Begins .opening ts
      · obtain ⟨opening, ts, rfl⟩ := hs
        rw [List.length_cons] at hlen
        have hargs : ∀ since, since + ts.length + 1 < line.items.length →
            Parses line (ts.length + 1) (descend nested since) p := fun since hsince =>
          parses_descend (hn.mono (by omega)) hsince
        refine (gives_check h ⟨opening, ts, rfl⟩).tracks fun c' h => ?_
        refine (tracks_list hargs (by omega) (by omega) h).bind fun args rest c' hlt h => ?_
        refine .pure h ?_ _
        simp only [List.length_cons]
        omega
      · refine (gives_check_false h hs).tracks fun c' h => ?_
        have hsymbol : parsePrimary count p (⟨.identifier name, span⟩ :: ts) = .ok (.symbol name, ts) := by
          rcases ts with _ | ⟨⟨kind, span'⟩, ts⟩
          · rfl
          · refine parsePrimary_name name span (fun hopening => hs ?_) ts
            cases hopening
            exact ⟨span', ts, rfl⟩
        rw [hsymbol]
        exact .pure h (Nat.lt_succ_self _) _
    | invalid => exact tracks_failHere h _

theorem parses_equality (hn : Parses line m nested p) (hbound : m < bound) (hcount : m ≤ count) :
    Parses line (m + 1) (equality bound nested) (parseEquality count p) := by
  have hnegation := parses_negation (parses_primary hn hbound hcount) (Nat.succ_le_of_lt hbound)
  have hlevel : ∀ {operator? : Token.Mark → Option Operator} {operand : Reading Expr}
      {q : Parser Expr}, Parses line (m + 1) operand q →
      Parses line (m + 1) (level bound operator? operand) (parseLevel count operator? q) :=
    fun h => parses_level h (Nat.succ_le_of_lt hbound) (Nat.succ_le_succ hcount)
  exact hlevel (hlevel (hlevel (hlevel hnegation)))

theorem gives_atFunction {span : Span} (h : Before line (⟨.mark .opening, span⟩ :: ts) c) :
    Gives line c atFunction (startsFunction ts) (⟨.mark .opening, span⟩ :: ts) := by
  refine (gives_check h ⟨span, ts, rfl⟩).bind fun c h => ?_
  refine (gives_peek h 1).bind fun c h => (gives_peek h 2).bind fun c h => ?_
  -- The second token matters after a closing parenthesis and after a name only.
  rcases ts with _ | ⟨⟨kind, _⟩, _ | ⟨⟨kind', _⟩, ts⟩⟩
  · exact .pure h false
  · cases kind with
    | mark mark => cases mark <;> exact .pure h false
    | _ => exact .pure h false
  · cases kind with
    | mark mark =>
      cases mark with
      | closing =>
        cases kind' with
        | mark mark' => cases mark' <;> exact .pure h _
        | _ => exact .pure h false
      | _ => exact .pure h false
    | identifier name =>
      cases kind' with
      | mark mark' => cases mark' <;> exact .pure h _
      | _ => exact .pure h false
    | _ => exact .pure h false

theorem parses_next (hn : Parses line m nested p) (hbound : m < bound) (hcount : m ≤ count) :
    Parses line (m + 1)
      (atFunction >>= fun starts => if starts then function bound nested else equality bound nested)
      (parseWith count p) := by
  intro ts c hlen h
  by_cases hs : Token.Begins .opening ts
  · obtain ⟨span, ts, rfl⟩ := hs
    refine (gives_atFunction h).tracks fun c h => ?_
    rw [parseWith]
    cases hstarts : startsFunction ts with
    | true =>
      rw [List.length_cons] at hlen
      exact tracks_function hn (by omega) (by omega) (by omega) h
    | false => exact parses_equality hn hbound hcount hlen h
  · have hno : Gives line c atFunction false ts :=
      (gives_check_false h hs).bind fun c h => .pure h false
    refine hno.tracks fun c h => ?_
    have hequality : parseWith count p ts = parseEquality count p ts := by
      unfold parseWith
      split
      · exact absurd ⟨_, _, rfl⟩ hs
      · rfl
    rw [hequality]
    exact parses_equality hn hbound hcount hlen h

end Nested

/-- No bound above the number of tokens that are left is met. -/
theorem parses_expression (hbound : m ≤ bound) (hcount : m ≤ count) :
    Parses line m (expression bound) (parseWithin count) := by
  induction m generalizing bound count with
  | zero => exact fun _ _ hlen => absurd hlen (Nat.not_lt_zero _)
  | succ m ih =>
    obtain ⟨bound, rfl⟩ : ∃ k, bound = k + 1 := ⟨bound - 1, by omega⟩
    obtain ⟨count, rfl⟩ : ∃ k, count = k + 1 := ⟨count - 1, by omega⟩
    exact parses_next (ih (by omega) (by omega)) (by omega) (by omega)

theorem parses_parse (hbound : m ≤ bound) : Parses line m (expression bound) Expr.parse :=
  fun ts _ hlen h => parses_expression (m := ts.length + 1) (by omega) le_rfl (Nat.lt_succ_self _) h

theorem parses_front (hbound : m ≤ bound) : Parses line m (front bound) Command.parseFront := by
  intro ts c hlen h
  refine (gives_current h).tracks fun c h => ?_
  have hexpression : Parses line m (expression bound) Expr.parse := parses_parse hbound
  have hbare : Tracks line ts.length c (expression bound >>= fun e => pure (Command.expression e))
      (Expr.parse ts >>= fun found => .ok (Command.expression found.1, found.2)) :=
    (hexpression hlen h).bind fun e rest c hlt h => .pure h hlt (Command.expression e)
  rcases ts with _ | ⟨⟨kind, span⟩, ts⟩
  · exact hbare
  · cases kind with
    | keyword word =>
      rw [List.length_cons] at hlen
      cases word with
      | letWord =>
        refine (gives_advance h).tracks fun c h => ?_
        refine (parses_identifier (Nat.lt_succ_self _) h).bind fun name ts₁ c hlt₁ h => ?_
        refine demands_assign.tracks_expect h fun c item ts₂ hlt₂ h => ?_
        refine (hexpression (by omega) h).bind fun e ts₃ c hlt₃ h => ?_
        refine .pure h ?_ _
        rw [List.length_cons]
        omega
      | explain =>
        refine (gives_advance h).tracks fun c h => ?_
        refine (hexpression (by omega) h).bind fun e rest c hlt h => ?_
        exact .pure h (Nat.lt_succ_of_lt hlt) _
      | symbols => exact tracks_advance h _
      | exit => exact tracks_advance h _
      | quit => exact tracks_advance h _
      | _ => exact hbare
    | _ => exact hbare

theorem tracks_command (hbound : ts.length < bound) (h : Before line ts c) :
    Tracks line (ts.length + 1) c (command bound)
      ((Command.parseTokens ts).map fun command => (command, [])) := by
  have hfront := parses_front (Nat.succ_le_of_lt hbound) (Nat.lt_succ_self _) h
  rw [Command.parseTokens]
  cases hparse : Command.parseFront ts with
  | error failure =>
    rw [hparse] at hfront
    exact hfront.error_bind _
  | ok result =>
    obtain ⟨command, rest⟩ := result
    rw [hparse] at hfront
    refine hfront.2.tracks fun c h => (gives_atEnd h).tracks fun c h => ?_
    rcases rest with _ | ⟨⟨kind, span⟩, rest⟩
    · exact .pure h (Nat.succ_pos _) command
    · cases kind <;> exact tracks_failHere h .trailingInput

/-- A line is read from its first token to the end, or to a failure, and to the result of parsing it. -/
theorem exists_outcome_command (line : TokenLine) :
    ∃ rest final, Before line rest final ∧
      (command line.items.length).outcome (.start line.items) =
        some (Command.ofTokenLine line, final) ∧
      ∀ c, Command.ofTokenLine line = .ok c → rest = [] := by
  have hlength : line.items.length = line.tokens.length + 1 := by
    simp [TokenLine.items]
  have hstart : Before line line.tokens (.start line.items) := by
    refine ⟨rfl, rfl, ?_, List.forall_mem_nil _, List.pairwise_singleton _ _⟩
    simp only [Cursor.start]
    omega
  have hlt : line.tokens.length < line.items.length := by omega
  have htracks := tracks_command hlt hstart
  rw [Command.ofTokenLine]
  cases hparse : Command.parseTokens line.tokens with
  | ok command =>
    rw [hparse] at htracks
    obtain ⟨-, final, hfinal, hrun⟩ := htracks
    exact ⟨[], final, hfinal, hrun, fun _ _ => rfl⟩
  | error failure =>
    rw [hparse] at htracks
    obtain ⟨final, hfinal, hrun⟩ := htracks
    exact ⟨_, final, hfinal, hrun, fun c hc => by cases hc⟩

end Reckoner.Reading

namespace Reckoner

/-- Items of which the last one, and no other, is the end of a line. -/
def Item.Closed (items : List Item) : Prop :=
  ∃ front last, items = front ++ [last] ∧ last.kind = none ∧ ∀ item ∈ front, item.kind ≠ none

theorem Item.Closed.exists_line {items : List Item} (h : Closed items) :
    ∃ line : TokenLine, line.items = items := by
  obtain ⟨front, ⟨_, span⟩, rfl, rfl, hfront⟩ := h
  have htokens : ∃ ts : List Token, ts.map .ofToken = front := by
    induction front with
    | nil => exact ⟨[], rfl⟩
    | cons item front ih =>
      obtain ⟨hitem, hfront⟩ := List.forall_mem_cons.mp hfront
      obtain ⟨ts, rfl⟩ := ih hfront
      obtain ⟨_ | kind, span⟩ := item
      · exact absurd rfl hitem
      · exact ⟨⟨kind, span⟩ :: ts, rfl⟩
  obtain ⟨ts, rfl⟩ := htokens
  exact ⟨⟨ts, span⟩, rfl⟩

/-- Reading a command comes to an end and never looks past the end of the line.  Whatever bound there is from
the number of items on, the run is the same.  The cursor is on the line throughout and never goes back; every
round of a loop, and every nested expression or operand, starts further on than the round before it and
than what it is part of.  Where there is a command, the cursor is at the end of the line after it; and the
result is that of the parser. -/
theorem Reading.command_ends {items : List Item} (h : Item.Closed items) :
    ∃ result final,
      (∀ bound, items.length ≤ bound → (command bound).outcome (.start items) = some (result, final)) ∧
      final.items = items ∧ final.Orderly ∧
      (∀ c, result = .ok c → ∃ span, items[final.pos]? = some ⟨none, span⟩) ∧
      ∀ line : TokenLine, line.items = items → result = Command.ofTokenLine line := by
  obtain ⟨line, rfl⟩ := h.exists_line
  obtain ⟨rest, final, hfinal, hrun, hrest⟩ := exists_outcome_command line
  refine ⟨_, final, fun bound hle => extends_command hle _ _ hrun, hfinal.items, hfinal.orderly,
    fun c hc => ?_, fun line' hline' => ?_⟩
  · have hlast := hfinal.getElem? (Nat.zero_le _)
    rw [hrest c hc, hfinal.items] at hlast
    exact ⟨line.stop, hlast⟩
  · obtain ⟨-, final', -, hrun', -⟩ := exists_outcome_command line'
    rw [hline', hrun] at hrun'
    exact congrArg Prod.fst (Option.some.inj hrun')

/-- A name in parentheses after a sign is read to the end of the line.  The operand starts after the sign,
and the expression in parentheses after the first of them. -/
theorem Reading.command_ends_negated :
    let items : List Item := [⟨some (.mark .minus), ⟨0, 1⟩⟩, ⟨some (.mark .opening), ⟨1, 2⟩⟩,
      ⟨some (.identifier "a"), ⟨2, 3⟩⟩, ⟨some (.mark .closing), ⟨3, 4⟩⟩, ⟨none, ⟨4, 4⟩⟩]
    Item.Closed items ∧ ∃ final,
      (command 5).outcome (.start items) = some (.ok (.expression (Expr.negate (.symbol "a"))), final) ∧
      final.items = items ∧ final.Orderly ∧ final.pos = 4 ∧
      ⟨1, .descent 0⟩ ∈ final.log ∧ ⟨2, .descent 1⟩ ∈ final.log := by
  intro items
  have hclosed : Item.Closed items := ⟨items.take 4, ⟨none, ⟨4, 4⟩⟩, rfl, rfl, by simp [items]⟩
  obtain ⟨result, final, hrun, hitems, horderly, hend, hresult⟩ := command_ends hclosed
  let line : TokenLine := ⟨[⟨.mark .minus, ⟨0, 1⟩⟩, ⟨.mark .opening, ⟨1, 2⟩⟩,
    ⟨.identifier "a", ⟨2, 3⟩⟩, ⟨.mark .closing, ⟨3, 4⟩⟩], ⟨4, 4⟩⟩
  have hparse : Command.ofTokenLine line = .ok (.expression (Expr.negate (.symbol "a"))) := rfl
  obtain rfl := (hresult line rfl).trans hparse
  obtain ⟨span, hspan⟩ := hend _ rfl
  have hlt : final.pos < items.length := hitems ▸ horderly.within
  change final.pos < 5 at hlt
  have hpos : final.pos = 4 := by
    interval_cases final.pos
    · cases hspan
    · cases hspan
    · cases hspan
    · cases hspan
    · rfl
  have hlog : ((command 5).outcome (.start items)).map (·.2.log.filter (·.event matches .descent _)) =
      some [⟨2, .descent 1⟩, ⟨1, .descent 0⟩] := by decide +kernel
  rw [hrun 5 le_rfl] at hlog
  have hmem : ∀ entry ∈ [⟨2, .descent 1⟩, ⟨1, .descent 0⟩], entry ∈ final.log :=
    fun entry hentry => List.mem_of_mem_filter ((Option.some.inj hlog) ▸ hentry)
  exact ⟨hclosed, final, hrun 5 le_rfl, hitems, horderly, hpos, hmem _ (by simp), hmem _ (by simp)⟩

/-- Without an end, the cursor would look past the last item. -/
example : (Reading.command 5).outcome (.start [⟨some (.identifier "a"), ⟨0, 1⟩⟩]) = none := rfl

end Reckoner
