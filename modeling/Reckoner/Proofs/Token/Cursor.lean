import Mathlib
import Reckoner.Proofs.Stateful
import Reckoner.Token.Cursor

/-! # Cursors stay on their line

A cursor that stands before some tokens of a line sees the first of them, or the end of the line, and never
leaves the line.  A run with a cursor goes along with a parser: it comes to the same result, and stands
before the tokens that the parser leaves.
-/
namespace Reckoner

open ParseError (Failure fail)

def Item.first (stop : Span) : List Token → Item
  | [] => ⟨none, stop⟩
  | t :: _ => .ofToken t

/-- Tokens of which the first is a certain mark. -/
def Token.Begins (mark : Token.Mark) (ts : List Token) : Prop :=
  ∃ span rest, ts = ⟨.mark mark, span⟩ :: rest

theorem Item.mark?_first {mark : Token.Mark} {stop : Span} {ts : List Token} :
    (first stop ts).mark? = some mark ↔ Token.Begins mark ts := by
  constructor
  · intro h
    rcases ts with _ | ⟨⟨kind, span⟩, ts⟩
    · cases h
    · cases kind with
      | mark m =>
        cases h
        exact ⟨span, ts, rfl⟩
      | _ => cases h
  · rintro ⟨span, rest, rfl⟩
    rfl

namespace Cursor

/-- What is taken down of a moment is as it should be: the cursor is on the line, and looks at an item on the
line; a round of a loop, or something nested, starts after an item has been consumed. -/
def Entry.Sound (length : Nat) (entry : Entry) : Prop :=
  entry.pos < length ∧ match entry.event with
    | .look index => index < length
    | .arrival => True
    | .round since => since < entry.pos
    | .descent since => since < entry.pos

/-- A cursor that is on its line, and has been all along.  It has never gone back. -/
structure Orderly (c : Cursor) : Prop where
  within : c.pos < c.items.length
  sound : ∀ entry ∈ c.log, entry.Sound c.items.length
  forward : (c.pos :: c.log.map (·.pos)).Pairwise (· ≥ ·)

theorem Orderly.note {c : Cursor} (h : c.Orderly) {event : Event}
    (hevent : Entry.Sound c.items.length ⟨c.pos, event⟩) : (c.note event).Orderly := by
  refine ⟨h.within, List.forall_mem_cons.mpr ⟨hevent, h.sound⟩, ?_⟩
  refine List.pairwise_cons.mpr ⟨List.forall_mem_cons.mpr ⟨le_rfl, ?_⟩, h.forward⟩
  exact (List.pairwise_cons.mp h.forward).1

/-- A cursor that stands before some tokens, which are the last ones of a line. -/
structure Before (line : TokenLine) (ts : List Token) (c : Cursor) : Prop where
  items : c.items = line.items
  rest : c.items.drop c.pos = TokenLine.items ⟨ts, line.stop⟩
  orderly : c.Orderly

namespace Before

variable {line : TokenLine} {ts : List Token} {t : Token} {c : Cursor}

theorem pos_add (h : Before line ts c) : c.pos + ts.length + 1 = line.items.length := by
  have hlength := congrArg List.length h.rest
  simp only [List.length_drop, TokenLine.items, List.length_append, List.length_map,
    List.length_singleton] at hlength
  have hwithin := h.orderly.within
  rw [← h.items]
  omega

theorem within (h : Before line ts c) : c.pos < line.items.length :=
  h.items ▸ h.orderly.within

theorem note (h : Before line ts c) {event : Event}
    (hevent : Entry.Sound line.items.length ⟨c.pos, event⟩) : Before line ts (c.note event) :=
  ⟨h.items, h.rest, h.orderly.note (by rwa [h.items])⟩

theorem next (h : Before line (t :: ts) c) : Before line ts c.next := by
  have hpos := h.pos_add
  have hwithin : c.pos + 1 < c.items.length := by
    rw [h.items]
    simp only [List.length_cons] at hpos
    omega
  have hrest : c.items.drop (c.pos + 1) = TokenLine.items ⟨ts, line.stop⟩ := by
    rw [← List.drop_drop, h.rest]
    rfl
  have hforward : ((c.pos + 1) :: c.log.map (·.pos)).Pairwise (· ≥ ·) := by
    obtain ⟨hle, hlog⟩ := List.pairwise_cons.mp h.orderly.forward
    exact List.pairwise_cons.mpr ⟨fun pos hpos => (hle pos hpos).trans (Nat.le_succ _), hlog⟩
  have horderly : Orderly { c with pos := c.pos + 1 } := ⟨hwithin, h.orderly.sound, hforward⟩
  exact ⟨h.items, hrest, horderly.note ⟨hwithin, trivial⟩⟩

/-- What a cursor sees at some distance, as far as the end of the line. -/
theorem getElem? (h : Before line ts c) {i : Nat} (hi : i ≤ ts.length) :
    c.items[c.pos + i]? = some (Item.first line.stop (ts.drop i)) := by
  rw [← List.getElem?_drop, h.rest, TokenLine.items]
  rcases hi.lt_or_eq with hlt | rfl
  · rw [List.getElem?_append_left (by simpa using hlt), List.getElem?_map,
      List.getElem?_eq_getElem hlt, List.drop_eq_getElem_cons hlt]
    rfl
  · simp [Item.first]

end Before

end Cursor

namespace Reading

open Cursor (Before)

/-- A run gives a result and leaves the cursor before some tokens. -/
def Gives {α : Type} (line : TokenLine) (c : Cursor) (x : Reading α) (a : α) (rest : List Token) :
    Prop :=
  ∃ c', Before line rest c' ∧ x.outcome c = some (.ok a, c')

/-- A run comes to what a parser comes to, and leaves the cursor before the tokens that the parser leaves:
fewer than a number of them, if it does not fail. -/
def Tracks {α : Type} (line : TokenLine) (below : Nat) (c : Cursor) (x : Reading α) :
    Except Failure (α × List Token) → Prop
  | .ok (a, rest) => rest.length < below ∧ Gives line c x a rest
  | .error failure => ∃ c', Before line failure.rest c' ∧
      x.outcome c = some (.error (ParseError.ofFailure line.stop failure), c')

variable {α β : Type} {line : TokenLine} {ts rest : List Token} {c : Cursor} {n : Nat}

theorem fail_bind (cause : ParseError.Cause) (ts : List Token) (g : α → Except Failure β) :
    ((fail cause ts : Except Failure α) >>= g) = fail cause ts := by
  unfold fail
  split <;> rfl

namespace Gives

variable {x : Reading α} {a : α} {f : α → Reading β} {b : β}

theorem pure (h : Before line ts c) (a : α) : Gives line c (Pure.pure a) a ts :=
  ⟨c, h, rfl⟩

theorem bind (hx : Gives line c x a rest)
    (hf : ∀ c', Before line rest c' → Gives line c' (f a) b ts) : Gives line c (x >>= f) b ts := by
  obtain ⟨c', hc', hx⟩ := hx
  obtain ⟨c'', hc'', hf⟩ := hf c' hc'
  exact ⟨c'', hc'', by rw [Stateful.outcome_bind, hx]; exact hf⟩

theorem tracks (hx : Gives line c x a rest) {y : Except Failure (β × List Token)}
    (hf : ∀ c', Before line rest c' → Tracks line n c' (f a) y) : Tracks line n c (x >>= f) y := by
  obtain ⟨c', hc', hx⟩ := hx
  have hout : Stateful.outcome (x >>= f) c = (f a).outcome c' := by rw [Stateful.outcome_bind, hx]
  cases y with
  | ok result =>
    obtain ⟨hlt, c'', hc'', hf⟩ := hf c' hc'
    exact ⟨hlt, c'', hc'', hout.trans hf⟩
  | error failure =>
    obtain ⟨c'', hc'', hf⟩ := hf c' hc'
    exact ⟨c'', hc'', hout.trans hf⟩

end Gives

namespace Tracks

variable {x : Reading α} {y : Except Failure (α × List Token)}

theorem pure (h : Before line rest c) (hlt : rest.length < n) (a : α) :
    Tracks line n c (Pure.pure a) (.ok (a, rest)) :=
  ⟨hlt, c, h, rfl⟩

/-- Where the cursor is, can be read off it at any time. -/
theorem position {f : Nat → Reading α} (h : Tracks line n c (f c.pos) y) :
    Tracks line n c (Reading.position >>= f) y := by
  cases y <;> exact h

theorem mono {m : Nat} (h : Tracks line m c x y) (hmn : m ≤ n) : Tracks line n c x y := by
  cases y with
  | ok result => exact ⟨h.1.trans_le hmn, h.2⟩
  | error failure => exact h

theorem error_bind {m : Nat} {failure : Failure} (hx : Tracks line m c x (.error failure))
    (f : α → Reading β) : Tracks line n c (x >>= f) (.error failure) := by
  obtain ⟨c', hc', hx⟩ := hx
  exact ⟨c', hc', by rw [Stateful.outcome_bind, hx]⟩

theorem bind {m : Nat} {f : α → Reading β} {g : α × List Token → Except Failure (β × List Token)}
    (hx : Tracks line m c x y)
    (hf : ∀ a rest c', rest.length < m → Before line rest c' → Tracks line n c' (f a) (g (a, rest))) :
    Tracks line n c (x >>= f) (y >>= g) := by
  cases y with
  | ok result =>
    obtain ⟨hlt, hgives⟩ := hx
    exact hgives.tracks fun c' hc' => hf _ _ c' hlt hc'
  | error failure => exact hx.error_bind f

/-- What fails goes on failing, whatever it was to give. -/
theorem fail_bind {m : Nat} {cause : ParseError.Cause} (hx : Tracks line m c x (fail cause ts))
    (f : α → Reading β) : Tracks line n c (x >>= f) (fail cause ts) := by
  obtain ⟨failure, hfail⟩ : ∃ failure, ∀ γ, (fail cause ts : Except Failure γ) = .error failure := by
    rcases ts with _ | ⟨⟨kind, span⟩, ts⟩
    · exact ⟨_, fun γ => rfl⟩
    · cases kind <;> exact ⟨_, fun γ => rfl⟩
  rw [hfail] at hx ⊢
  exact hx.error_bind f

end Tracks

section Operations

theorem gives_round {since : Nat} (h : Before line ts c) (hsince : since < c.pos) :
    Gives line c (note (.round since)) () ts :=
  ⟨_, h.note ⟨h.within, hsince⟩, rfl⟩

theorem gives_descent {since : Nat} (h : Before line ts c) (hsince : since < c.pos) :
    Gives line c (note (.descent since)) () ts :=
  ⟨_, h.note ⟨h.within, hsince⟩, rfl⟩

theorem gives_lookAt (h : Before line ts c) {i : Nat} (hi : i ≤ ts.length) :
    Gives line c (lookAt (c.pos + i)) (Item.first line.stop (ts.drop i)) ts := by
  have hindex : c.pos + i < line.items.length := by
    rw [← h.pos_add]
    omega
  refine ⟨c.note (.look (c.pos + i)), h.note ⟨h.within, hindex⟩, ?_⟩
  rw [lookAt, Stateful.outcome_bind]
  change Stateful.outcome (Stateful.ofOption c.items[c.pos + i]?) (c.note (.look (c.pos + i))) = _
  rw [h.getElem? hi]
  rfl

theorem gives_current (h : Before line ts c) :
    Gives line c current (Item.first line.stop ts) ts :=
  gives_lookAt h (Nat.zero_le _)

/-- However far it would look ahead, a cursor sees the end of the line at most. -/
theorem gives_peek (h : Before line ts c) (distance : Nat) :
    Gives line c (peek distance) (Item.first line.stop (ts.drop distance)) ts := by
  have hpos := h.pos_add
  have hclamp : min (c.pos + distance) (c.items.length - 1) = c.pos + min distance ts.length := by
    rw [h.items]
    omega
  have hdrop : ts.drop (min distance ts.length) = ts.drop distance := by
    rcases Nat.le_total distance ts.length with hle | hle
    · rw [Nat.min_eq_left hle]
    · rw [Nat.min_eq_right hle, List.drop_length, List.drop_eq_nil_of_le hle]
  have hlook := gives_lookAt h (Nat.min_le_right distance ts.length)
  rw [hdrop, ← hclamp] at hlook
  exact hlook

theorem gives_check {mark : Token.Mark} (h : Before line ts c) (hs : Token.Begins mark ts) :
    Gives line c (check mark) true ts := by
  have hmark : ((Item.first line.stop ts).mark? == some mark) = true :=
    beq_iff_eq.mpr (Item.mark?_first.mpr hs)
  exact hmark ▸ (gives_current h).bind fun _ h => .pure h _

theorem gives_check_false {mark : Token.Mark} (h : Before line ts c)
    (hs : ¬ Token.Begins mark ts) : Gives line c (check mark) false ts := by
  have hmark : ((Item.first line.stop ts).mark? == some mark) = false :=
    beq_eq_false_iff_ne.mpr fun heq => hs (Item.mark?_first.mp heq)
  exact hmark ▸ (gives_current h).bind fun _ h => .pure h _

theorem gives_atEnd (h : Before line ts c) :
    Gives line c atEnd (Item.first line.stop ts).isEnd ts :=
  (gives_current h).bind fun _ h => .pure h _

theorem gives_advance {t : Token} (h : Before line (t :: ts) c) :
    Gives line c advance (.ofToken t) ts := by
  refine (gives_current h).bind fun c h => (gives_atEnd h).bind fun c h => ?_
  exact ⟨c.next, h.next, rfl⟩

/-- A token that tells all there is to know. -/
theorem tracks_advance {t : Token} (h : Before line (t :: ts) c) (a : α) :
    Tracks line (t :: ts).length c (advance >>= fun _ => pure a) (.ok (a, ts)) :=
  (gives_advance h).tracks fun _ h => .pure h (Nat.lt_succ_self _) a

theorem gives_eat {mark : Token.Mark} {span : Span} (h : Before line (⟨.mark mark, span⟩ :: ts) c) :
    Gives line c (eat mark) true ts :=
  (gives_check h ⟨span, ts, rfl⟩).bind fun _ h => (gives_advance h).bind fun _ h => .pure h true

theorem gives_eat_false {mark : Token.Mark} (h : Before line ts c) (hs : ¬ Token.Begins mark ts) :
    Gives line c (eat mark) false ts :=
  (gives_check_false h hs).bind fun _ h => .pure h false

theorem tracks_failHere (h : Before line ts c) (cause : ParseError.Cause) :
    Tracks line n c (failHere cause : Reading α) (fail cause ts) := by
  refine (gives_current h).tracks fun c h => ?_
  rcases ts with _ | ⟨⟨kind, span⟩, ts⟩
  · exact ⟨c, h, rfl⟩
  · cases kind <;> exact ⟨c, h, rfl⟩

theorem tracks_expect {mark : Token.Mark} {span : Span} {expected : String} {f : Item → Reading α}
    {y : Except Failure (α × List Token)} (h : Before line (⟨.mark mark, span⟩ :: ts) c)
    (hf : ∀ c' item, Before line ts c' → Tracks line n c' (f item) y) :
    Tracks line n c (expect mark expected >>= f) y := by
  have hexpect : Gives line c (expect mark expected) (.ofToken ⟨.mark mark, span⟩) ts :=
    (gives_check h ⟨span, ts, rfl⟩).bind fun _ h => gives_advance h
  exact hexpect.tracks fun c' h => hf c' _ h

theorem tracks_expect_fail {mark : Token.Mark} {expected : String} (h : Before line ts c)
    (hs : ¬ Token.Begins mark ts) (f : Item → Reading α) :
    Tracks line n c (expect mark expected >>= f) (fail (.unexpectedToken expected) ts) := by
  have hexpect : Tracks line n c (expect mark expected) (fail (.unexpectedToken expected) ts) :=
    (gives_check_false h hs).tracks fun _ h => tracks_failHere h _
  exact hexpect.fail_bind f

end Operations

end Reading

end Reckoner
