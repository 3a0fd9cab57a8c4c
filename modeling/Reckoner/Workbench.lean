import Reckoner.Eval.Stored
import Reckoner.Prelude
import Reckoner.Typing.Stored

/-! # Workbenches

A workbench is a store with a list of the tables at hand and the values found so far.  Expressions
that enter it get fresh marks, so that closures can tell which function literal they come from.
-/
namespace Reckoner

/-- A store, the places of the tables at hand, and the values found so far. -/
structure Workbench where
  store : Store
  listed : Array Nat
  values : Array Kept
  /-- The next mark for a function literal. -/
  nextMark : Nat
  /-- How deep checks and evaluations may nest. -/
  limit : Nat

namespace Workbench

def place? (w : Workbench) (index : Nat) : Option Nat :=
  w.listed[index]?

def index? (w : Workbench) (place : Nat) : Option Nat :=
  w.listed.findIdx? (· == place)

/-- Puts the table at a place at hand, and gives its index. -/
def enlist (w : Workbench) (place : Nat) : Workbench × Nat :=
  ({ w with listed := w.listed.push place }, w.listed.size)

def openRoot (w : Workbench) : Workbench × Nat :=
  { w with store := w.store.addRoot }.enlist w.store.size

def openChild (w : Workbench) (place : Nat) (purpose : Purpose) : Workbench × Nat :=
  { w with store := w.store.addChild place purpose }.enlist w.store.size

def stamp (w : Workbench) (e : Expr) : Workbench × Expr :=
  let (e, next) := e.stamp w.nextMark
  ({ w with nextMark := next }, e)

def put (w : Workbench) (place : Nat) (name : String) (e : Expr) : Workbench :=
  let (w, e) := w.stamp e
  { w with store := w.store.put place name e }

def install (w : Workbench) (place : Nat) : Workbench :=
  Prelude.bindings.foldl (fun w (name, e) => w.put place name e) w

def remove (w : Workbench) (place : Nat) (name : String) : Workbench :=
  { w with store := w.store.remove place name }

/-- A workbench with one table: empty, or that of a fresh session. -/
def start (limit : Nat) (bare : Bool) : Workbench :=
  let (w, _) := openRoot ⟨.empty, #[], #[], 0, limit⟩
  if bare then w else (w.put 0 lastResult (.number 0.0)).install 0

/-- Runs an evaluation on the store, keeps its value, and gives the index of it. -/
def keep (w : Workbench) (evaluation : Work Halt Kept) : Workbench × Except Halt Nat :=
  match evaluation.run w.store with
  | (.error halt, store) => ({ w with store := store }, .error halt)
  | (.ok kept, store) =>
    ({ w with store := store, values := w.values.push kept }, .ok w.values.size)

def eval (w : Workbench) (place : Nat) (e : Expr) : Workbench × Except Halt Nat :=
  let (w, e) := w.stamp e
  w.keep (Eval.Stored.eval Prelude.host w.limit place e)

def evalBody (w : Workbench) (place : Nat) (body : Expr) : Workbench × Except Halt Nat :=
  w.keep (Eval.Stored.eval Prelude.host w.limit place body)

def call (w : Workbench) (c : Closure) (args : List Value) : Workbench × Except Halt Nat :=
  let (store, place) := w.store.house c.scope
  { w with store := store }.keep (Eval.Stored.call Prelude.host w.limit c.params c.body place args)

def check (w : Workbench) (place : Nat) (e : Expr) : Typing.Result :=
  ((Typing.Stored.check w.limit place e).run w.store).1

def value? (w : Workbench) (index : Nat) : Option Value :=
  w.values[index]?.map (·.value w.store)

/-- Puts the table that a closure has captured at hand unless it is already: its index, and whether
it was. -/
def captured (w : Workbench) (place : Nat) : Workbench × Nat × Bool :=
  match w.index? place with
  | some index => (w, index, true)
  | none =>
    let (w, index) := w.enlist place
    (w, index, false)

end Workbench

end Reckoner
