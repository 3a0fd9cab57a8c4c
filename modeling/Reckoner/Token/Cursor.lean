import Reckoner.ParseError
import Reckoner.Stateful

/-! # Cursors

A line can be read with a cursor: a position in the list of its tokens, of which the last stands for the end
of the line.  The cursor looks at the item at its position, and at the next ones, and goes on to the next
item, but not past the end of the line.  It takes down what it does, and where.
-/
namespace Reckoner

/-- A token, or the end of a line, which has a span but no kind. -/
structure Item where
  kind : Option Token.Kind
  span : Span

namespace Item

def ofToken (t : Token) : Item :=
  ⟨some t.kind, t.span⟩

def mark? (item : Item) : Option Token.Mark :=
  match item.kind with
  | some (.mark m) => some m
  | _ => none

def isEnd (item : Item) : Bool :=
  item.kind.isNone

end Item

def TokenLine.items (line : TokenLine) : List Item :=
  line.tokens.map .ofToken ++ [⟨none, line.stop⟩]

namespace Cursor

/-- What can be said of a moment at which something is read. -/
inductive Event where
  /-- The item at an index is looked at. -/
  | look (index : Nat)
  /-- The cursor has gone on to its position. -/
  | arrival
  /-- A round of a loop starts.  The round before, or what the loop is part of, started at `since`. -/
  | round (since : Nat)
  /-- An expression inside another one starts, or an operand after a sign.  What it is part of started at
  `since`. -/
  | descent (since : Nat)
deriving DecidableEq, Repr

/-- An event, and where the cursor was. -/
structure Entry where
  pos : Nat
  event : Event
deriving DecidableEq, Repr

end Cursor

structure Cursor where
  items : List Item
  pos : Nat
  /-- What has happened so far, the latest first. -/
  log : List Cursor.Entry

namespace Cursor

def start (items : List Item) : Cursor :=
  ⟨items, 0, []⟩

def note (c : Cursor) (event : Event) : Cursor :=
  { c with log := ⟨c.pos, event⟩ :: c.log }

def next (c : Cursor) : Cursor :=
  { c with pos := c.pos + 1 }.note .arrival

end Cursor

/-- Work with a cursor.  It gets stuck where there is no item to look at. -/
abbrev Reading (α : Type) := Stateful Cursor ParseError α

namespace Reading

def note (event : Cursor.Event) : Reading Unit :=
  modify fun c => c.note event

def position : Reading Nat :=
  return (← get).pos

def lookAt (index : Nat) : Reading Item := do
  note (.look index)
  Stateful.ofOption (← get).items[index]?

def current : Reading Item := do
  lookAt (← position)

/-- The item that comes some items after the cursor, or the last one. -/
def peek (distance : Nat) : Reading Item := do
  let c ← get
  lookAt (min (c.pos + distance) (c.items.length - 1))

def check (mark : Token.Mark) : Reading Bool := do
  return (← current).mark? == some mark

def atEnd : Reading Bool := do
  return (← current).isEnd

def advance : Reading Item := do
  let item ← current
  if ← atEnd then return item
  else
    modify Cursor.next
    return item

/-- Goes past a punctuation mark, if the cursor is at it. -/
def eat (mark : Token.Mark) : Reading Bool := do
  if ← check mark then
    let _ ← advance
    return true
  else return false

/-- Fails at the cursor.  Where that is at an invalid character, this is the cause, whatever else was
expected. -/
def failHere {α : Type} (cause : ParseError.Cause) : Reading α := do
  let item ← current
  match item.kind with
  | some .invalid => throw ⟨.invalidCharacter, item.kind, item.span⟩
  | _ => throw ⟨cause, item.kind, item.span⟩

/-- Goes past a punctuation mark that has to stand here. -/
def expect (mark : Token.Mark) (expected : String) : Reading Item := do
  if ← check mark then advance
  else failHere (.unexpectedToken expected)

end Reading

end Reckoner
