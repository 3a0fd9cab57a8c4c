import Reckoner.Scope.Store

/-! # Walks through a store

A lookup walks from a table to the table around it, and so on to the last.  A call opens a table and
fills it before anything else can look at it.
-/
namespace Reckoner

namespace Store

def find? (s : Store) (place : Nat) (name : String) : Option (Expr × Nat) :=
  match s.tables[place]? with
  | none => none
  | some t =>
    match t.table.get? name, t.parent with
    | some e, _ => some (e, place)
    | none, none => none
    | none, some parent => if parent < place then find? s parent name else none
termination_by place

/-- The place of the scope in which to read a binding that the table at `owner` has, when it was looked
up from `start`. -/
def readingPlace (s : Store) (start owner : Nat) : Nat :=
  match s.tables[owner]? with
  | none => start
  | some t => if t.purpose = .activation then t.parent.getD owner else start

/-- The nearest binding of a name, and the place of the scope in which to read it. -/
def read? (s : Store) (place : Nat) (name : String) : Option (Expr × Nat) :=
  (s.find? place name).map fun (e, owner) => (e, s.readingPlace place owner)

def putAll (s : Store) (place : Nat) (bindings : List (String × Expr)) : Store :=
  bindings.foldl (fun s b => s.put place b.1 b.2) s

end Store

/-- Work on a store that may fail.  What has been done to the store by then stays done. -/
abbrev Work (ε α : Type) := ExceptT ε (StateM Store) α

namespace Work

def openChild {ε : Type} (place : Nat) (purpose : Purpose) : Work ε Nat :=
  modifyGet fun s => (s.size, s.addChild place purpose)

/-- Opens a table with some bindings inside the one at a place, and gives its place. -/
def openWith {ε : Type} (place : Nat) (purpose : Purpose) (bindings : List (String × Expr)) :
    Work ε Nat := do
  let inner ← openChild place purpose
  modify fun s => s.putAll inner bindings
  return inner

end Work

end Reckoner
