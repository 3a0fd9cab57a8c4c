import Reckoner.Scope.Suggestion
import Reckoner.Value

/-! # Stores of scopes

A store holds tables that share parents.  Each has a place, is opened inside a table that stands
at an earlier place or inside none, and can be changed later; all scopes through it see the
change.  Evaluations and checks open tables of their own, and a closure is kept with the place of the
table that it has captured.
-/
namespace Reckoner

structure StoredTable where
  purpose : Purpose
  parent : Option Nat
  table : Table

structure Store where
  tables : Array StoredTable

namespace Store

def empty : Store :=
  ⟨#[]⟩

def size (s : Store) : Nat :=
  s.tables.size

/-- Adds a table at the next place. -/
def add (s : Store) (t : StoredTable) : Store :=
  ⟨s.tables.push t⟩

def addRoot (s : Store) : Store :=
  s.add ⟨.root, none, .empty⟩

def addChild (s : Store) (place : Nat) (purpose : Purpose) : Store :=
  s.add ⟨purpose, some place, .empty⟩

def modify (s : Store) (place : Nat) (change : Table → Table) : Store :=
  ⟨s.tables.modify place fun t => { t with table := change t.table }⟩

def put (s : Store) (place : Nat) (name : String) (e : Expr) : Store :=
  s.modify place (·.insert name e)

def remove (s : Store) (place : Nat) (name : String) : Store :=
  s.modify place (·.erase name)

/-- The table at a place, empty if there is none. -/
def table (s : Store) (place : Nat) : Table :=
  (s.tables[place]?.map (·.table)).getD .empty

/-- Removes a name from the table at a place, and gives what that table bound it to. -/
def take (s : Store) (place : Nat) (name : String) : Option Expr × Store :=
  ((s.table place).get? name, s.remove place name)

def parent? (s : Store) (place : Nat) : Option Nat :=
  s.tables[place]?.bind (·.parent)

def scope (s : Store) (place : Nat) : Scope :=
  match s.tables[place]? with
  | none => []
  | some t =>
    let outer :=
      match t.parent with
      | none => []
      | some parent => if parent < place then scope s parent else []
    ⟨t.purpose, t.table, some place⟩ :: outer
termination_by place

/-- Gives a place to every frame of a scope that has none, and the place of the nearest frame. -/
def adopt (s : Store) : Scope → Store × Option Nat
  | [] => (s, none)
  | f :: outer =>
    match f.home with
    | some place => (s, some place)
    | none =>
      let (s, parent) := adopt s outer
      (s.add ⟨f.purpose, parent, f.table⟩, some s.size)

/-- Gives a place to a scope; one without frames becomes that of a new empty table. -/
def house (s : Store) (scope : Scope) : Store × Nat :=
  match s.adopt scope with
  | (s, some place) => (s, place)
  | (s, none) => (s.addRoot, s.size)

def owner? (s : Store) (place : Nat) (name : String) : Option (Expr × Option Nat) :=
  ((s.scope place).owner? name).map fun (e, owner) => (e, owner.head?.bind (·.home))

def resolve? (s : Store) (place : Nat) (name : String) : Option (Expr × Option Nat) :=
  ((s.scope place).resolve? name).map fun (e, env) => (e, env.head?.bind (·.home))

end Store

/-- A value kept beside a store: a closure is kept with the place of its scope, so that it sees
later changes. -/
inductive Kept where
  | number (value : Float)
  | boolean (value : Bool)
  | function (mark : Nat) (params : List Parameter) (body : Expr) (place : Nat)

namespace Kept

/-- Keeps a value, and gives places to the frames that it has captured. -/
def ofValue (s : Store) : Value → Store × Kept
  | .number x => (s, number x)
  | .boolean b => (s, boolean b)
  | .function c =>
    let (s, place) := s.house c.scope
    (s, function c.mark c.params c.body place)

/-- The value as it stands now. -/
def value (s : Store) : Kept → Value
  | number x => .number x
  | boolean b => .boolean b
  | function mark params body place => .function ⟨mark, params, body, s.scope place⟩

/-- The place of the scope that a closure has captured. -/
def place? : Kept → Option Nat
  | function _ _ _ place => some place
  | _ => none

/-- Equality of values: closures are equal if they come from the same function literal and have
captured the same scope. -/
def same : Kept → Kept → Bool
  | number x, number y => x == y
  | boolean a, boolean b => a == b
  | function m _ _ p, function n _ _ q => m == n && p == q
  | _, _ => false

end Kept

end Reckoner
