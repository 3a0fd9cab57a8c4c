import Reckoner.Scope.Table

/-! # Scopes

A scope is a chain of frames, the nearest first.  A frame is opened for a purpose and holds a
table.  A name means its nearest binding.  The argument of a call was written where the call
stands, so it is read in the scope outside its activation; any other binding is read in the scope
where the name was looked up.
-/
namespace Reckoner

/-- What a frame is opened for. -/
inductive Purpose where
  /-- The bindings of a session. -/
  | root
  /-- The arguments of one call. -/
  | activation
  /-- The parameters of a function while its body is checked. -/
  | check
  /-- Anything else. -/
  | block
deriving DecidableEq, Repr

/-- One table of a scope.  If the table stands in a store, `home` is its place there. -/
structure Frame where
  purpose : Purpose
  table : Table
  home : Option Nat := none

/-- A chain of frames, the nearest first. -/
abbrev Scope := List Frame

namespace Scope

def ofTable (t : Table) : Scope :=
  [⟨.root, t, none⟩]

/-- The nearest binding of a name, and the scope from the frame that holds it outward. -/
def owner? (name : String) : Scope → Option (Expr × Scope)
  | [] => none
  | f :: outer =>
    match f.table.get? name with
    | some e => some (e, f :: outer)
    | none => owner? name outer

def get? (s : Scope) (name : String) : Option Expr :=
  (s.owner? name).map (·.1)

def has (s : Scope) (name : String) : Bool :=
  (s.owner? name).isSome

/-- The scope in which a binding is read, when a lookup from `start` finds it in the first frame of
`owner`. -/
def readingScope (start : Scope) : Scope → Scope
  | [] => start
  | [f] => if f.purpose = .activation then [f] else start
  | f :: outer => if f.purpose = .activation then outer else start

/-- The nearest binding of a name, and the scope in which to read it. -/
def resolve? (s : Scope) (name : String) : Option (Expr × Scope) :=
  (s.owner? name).map fun (e, owner) => (e, s.readingScope owner)

/-- Every bound name: nearer frames first, in order within a frame, and none twice. -/
def visibleNames : Scope → List String
  | [] => []
  | f :: outer => f.table.names ++ (visibleNames outer).filter (!f.table.names.contains ·)

def purpose : Scope → Purpose
  | [] => .root
  | f :: _ => f.purpose

/-- Opens a frame for the arguments of a call. -/
def activate (s : Scope) (params : List Parameter) (args : List Expr) : Scope :=
  ⟨.activation, .ofList ((params.map (·.name)).zip args), none⟩ :: s

/-- Opens a frame in which every parameter stands for its own declaration. -/
def declare (s : Scope) (params : List Parameter) : Scope :=
  ⟨.check, .ofList (params.map fun p => (p.name, .parameter p)), none⟩ :: s

/-- The number of nodes in the bindings of a scope, and one for each frame. -/
def size (s : Scope) : Nat :=
  s.foldr (fun f n => 1 + Expr.sizeAll (f.table.entries.map (·.2)) + n) 0

theorem get?_cons (f : Frame) (outer : Scope) (name : String) :
    get? (f :: outer) name = (f.table.get? name).or (get? outer name) := by
  simp only [get?, owner?]
  cases f.table.get? name <;> rfl

theorem owner?_cons_of_some {f : Frame} {outer : Scope} {name : String} {e : Expr}
    (h : f.table.get? name = some e) : owner? name (f :: outer) = some (e, f :: outer) := by
  simp [owner?, h]

theorem owner?_cons_of_none {f : Frame} {outer : Scope} {name : String}
    (h : f.table.get? name = none) : owner? name (f :: outer) = owner? name outer := by
  simp [owner?, h]

end Scope

end Reckoner
