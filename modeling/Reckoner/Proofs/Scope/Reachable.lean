import Mathlib
import Reckoner.Prelude
import Reckoner.Proofs.Eval.Sparing
import Reckoner.Proofs.Typing.Stored

/-! # The stores that programs reach

A program opens tables in a store, binds and removes names in them, and makes requests: evaluations,
checks, calls.  Whatever it does, and whether or not that succeeds, every table stands after the table
around it, and no request changes a table that it finds.  The functions of the host that evaluations ask
may look at the closures that they are given, and may give closures of their own, but these can have
captured no tables of the store except those that the arguments have.
-/
namespace Reckoner

namespace Store

variable {s : Store}

section Walking

/-- The places from one outward, to that of a table around which there is none. -/
inductive Walk (s : Store) : Nat → List Nat → Prop where
  | last {p : Nat} (h : s.parent? p = none) : Walk s p [p]
  | outward {p parent : Nat} {places : List Nat} (h : s.parent? p = some parent)
      (rest : Walk s parent places) : Walk s p (p :: places)

def frame? (s : Store) (place : Nat) : Option Frame :=
  s.tables[place]?.map fun t => ⟨t.purpose, t.table, some place⟩

/-- What the table at a place binds a name to, and the place. -/
def binding? (s : Store) (name : String) (place : Nat) : Option (Expr × Nat) :=
  ((s.table place).get? name).map (·, place)

theorem parent?_of_table {p : Nat} {t : StoredTable} (h : s.tables[p]? = some t) :
    s.parent? p = t.parent := by
  rw [parent?, h, Option.bind_some]

theorem frame?_of_table {p : Nat} {t : StoredTable} (h : s.tables[p]? = some t) :
    s.frame? p = some ⟨t.purpose, t.table, some p⟩ := by
  rw [frame?, h, Option.map_some]

theorem binding?_of_table {p : Nat} {t : StoredTable} (h : s.tables[p]? = some t) (n : String) :
    s.binding? n p = (t.table.get? n).map (·, p) := by
  rw [binding?, table, h, Option.map_some, Option.getD_some]

theorem Ordered.parent?_lt (h : s.Ordered) {p parent : Nat} (hp : s.parent? p = some parent) :
    parent < p := by
  obtain ⟨t, ht, hparent⟩ := Option.bind_eq_some_iff.mp hp
  exact h p t parent ht hparent

/-- A walk outward from a place ends.  The frames on its way are the scope of the place, and a lookup
finds the first binding on its way. -/
theorem Ordered.exists_walk (h : s.Ordered) {p : Nat} (hp : p < s.size) :
    ∃ places, s.Walk p places ∧ (s.scope p).map some = places.map s.frame? ∧
      ∀ n, s.find? p n = places.findSome? (s.binding? n) := by
  induction p using Nat.strong_induction_on with
  | _ p ih =>
    obtain ⟨t, ht⟩ := exists_table hp
    have hparent := parent?_of_table ht
    cases hout : t.parent with
    | none =>
      refine ⟨[p], .last (hparent.trans hout), ?_, fun n => ?_⟩
      · simp [h.scope_eq ht, hout, frame?_of_table ht]
      · rw [h.find?_eq ht, hout, List.findSome?_cons, binding?_of_table ht]
        cases t.table.get? n <;> rfl
    | some parent =>
      have hlt := h p t parent ht hout
      obtain ⟨places, hwalk, hscope, hfind⟩ := ih parent hlt (hlt.trans hp)
      refine ⟨p :: places, .outward (hparent.trans hout) hwalk, ?_, fun n => ?_⟩
      · simp [h.scope_eq ht, hout, frame?_of_table ht, hscope]
      · rw [h.find?_eq ht, hout, List.findSome?_cons, binding?_of_table ht]
        cases t.table.get? n with
        | some e => rfl
        | none => exact hfind n

end Walking

/-- What a program can ask about expressions and values without meaning to change any table. -/
inductive Request where
  | eval (limit place : Nat) (e : Expr)
  | check (limit place : Nat) (e : Expr)
  | type (limit : Nat) (k : Kept)
  | describe (k : Kept)
  | call (limit mark : Nat) (params : List Parameter) (body : Expr) (place : Nat) (args : List Kept)

inductive Action where
  | addRoot
  | addChild (place : Nat) (purpose : Purpose)
  | put (place : Nat) (name : String) (e : Expr)
  | remove (place : Nat) (name : String)
  | install (place : Nat)
  | ask (r : Request)

def Request.In (s : Store) : Request → Prop
  | eval _ p _ => p < s.size
  | check _ p _ => p < s.size
  | type _ k => k.In s
  | describe k => k.In s
  | call _ mark params body p args => (Kept.function mark params body p).In s ∧ ∀ k ∈ args, k.In s

/-- The value that a request gives, if it gives one, and the store after it. -/
def Request.run (host : Host) (s : Store) : Request → Option Kept × Store
  | eval limit p e => ((Eval.Stored.eval host limit p e).run s).map Except.toOption id
  | check limit p e => (none, ((Typing.Stored.check limit p e).run s).2)
  | type limit k => (none, ((k.type limit).run s).2)
  | describe k => (none, ((k.describe : Work Empty String).run s).2)
  | call limit _ params body p args =>
    ((Eval.Stored.call host limit params body p (args.map (·.value s))).run s).map Except.toOption id

def Action.In (s : Store) : Action → Prop
  | addRoot => True
  | addChild p _ => p < s.size
  | put p _ _ => p < s.size
  | remove p _ => p < s.size
  | install p => p < s.size
  | ask r => r.In s

def Action.run (host : Host) (s : Store) : Action → Store
  | addRoot => s.addRoot
  | addChild p purpose => s.addChild p purpose
  | put p n e => s.put p n e
  | remove p n => s.remove p n
  | install p => s.putAll p Prelude.bindings
  | ask r => (r.run host s).2

/-- The stores that a program can have. -/
inductive Reachable (host : Host) : Store → Prop where
  | empty : Reachable host empty
  | step {s : Store} (h : Reachable host s) (a : Action) (ha : a.In s) :
      Reachable host (a.run host s)

/-- A request leaves the tables of a store as they were, and if it gives a closure, that has captured
a table of the store after it. -/
structure Undisturbed (s : Store) (answer : Option Kept × Store) : Prop where
  grows : s.Grows answer.2
  ordered : answer.2.Ordered
  within : ∀ k ∈ answer.1, k.In answer.2

theorem Undisturbed.of_spares {x : Work Halt Kept} (h : Work.Spares s s Kept.In x) :
    s.Undisturbed ((x.run s).map Except.toOption id) := by
  obtain ⟨hgrows, hordered, hgives⟩ := h
  refine ⟨hgrows, hordered, fun k hk => ?_⟩
  rw [Prod.map_fst] at hk
  rw [Prod.map_snd, id]
  generalize (x.run s).1 = outcome at hgives hk
  cases outcome with
  | error halt => cases hk
  | ok k' =>
    cases hk
    exact hgives _ rfl

theorem Undisturbed.of_tracks_none {ε α β : Type} {R : Store → α → β → Prop} {x : Work ε α}
    {y : Except ε β} (h : Work.Tracks s s R x y) : s.Undisturbed (none, (x.run s).2) :=
  ⟨h.grows, h.ordered, fun _ hk => nomatch hk⟩

section Requests

variable {host : Host} (hhost : host.Confined)
include hhost

/-- What a request does to a store, whether it fails or not. -/
theorem Ordered.request (hs : s.Ordered) {r : Request} (hr : r.In s) :
    s.Undisturbed (r.run host s) := by
  cases r with
  | eval limit p e =>
    rw [Request.run]
    exact .of_spares (Eval.Stored.eval_spares hhost limit hs hr e)
  | check limit p e => exact .of_tracks_none (Typing.Stored.check_tracks limit hs hr e)
  | type limit k => exact .of_tracks_none (Kept.type_tracks limit hs hr)
  | describe k => exact .of_tracks_none (Kept.describe_tracks hs hr)
  | call limit mark params body p args =>
    obtain ⟨hp, -⟩ := hr
    rw [Request.run]
    exact .of_spares (Eval.Stored.call_spares hhost limit hs params body (hp p rfl) _)

/-- No action opens a table before the table around it. -/
theorem Ordered.action (hs : s.Ordered) {a : Action} (ha : a.In s) : (a.run host s).Ordered := by
  cases a with
  | addRoot => exact hs.add fun p hp => nomatch hp
  | addChild p purpose =>
    refine hs.add fun q hq => ?_
    cases hq
    exact ha
  | put p n e => exact hs.modify p _
  | remove p n => exact hs.modify p _
  | install p => exact hs.putAll p _
  | ask r => exact (hs.request hhost ha).ordered

/-- No table is ever taken away. -/
theorem Ordered.size_le_action (hs : s.Ordered) {a : Action} (ha : a.In s) :
    s.size ≤ (a.run host s).size := by
  cases a with
  | addRoot => exact (grows_add s _).size_le
  | addChild p purpose => exact (grows_add s _).size_le
  | put p n e => exact (size_modify s p _).ge
  | remove p n => exact (size_modify s p _).ge
  | install p => exact (size_putAll s p _).ge
  | ask r => exact (hs.request hhost ha).grows.size_le

theorem Reachable.ordered (h : s.Reachable host) : s.Ordered := by
  induction h with
  | empty =>
    intro p t parent ht
    cases ht
  | step _ a ha ih => exact ih.action hhost ha

/-- In every store that a program reaches, the table around a table was opened before it, so that every
walk outward ends; and a request, whether it fails or not, leaves every table as it was, with its
bindings, its parent and its purpose, and gives no closure but one that has captured a table of the
store. -/
theorem Reachable.undisturbed (h : s.Reachable host) :
    (∀ p parent, s.parent? p = some parent → parent < p) ∧
    (∀ p < s.size, ∃ places, s.Walk p places ∧ (s.scope p).map some = places.map s.frame? ∧
      ∀ n, s.find? p n = places.findSome? (s.binding? n)) ∧
    ∀ r : Request, r.In s →
      (∀ p < s.size, (r.run host s).2.tables[p]? = s.tables[p]?) ∧
      ∀ k ∈ (r.run host s).1, k.In (r.run host s).2 := by
  have hs := h.ordered hhost
  refine ⟨fun p parent hp => hs.parent?_lt hp, fun p hp => hs.exists_walk hp, fun r hr => ?_⟩
  obtain ⟨hgrows, -, hwithin⟩ := hs.request hhost hr
  exact ⟨hgrows.same, hwithin⟩

end Requests

/-- A function that returns a function is called, and a host function hands on what it returns: the
activations are opened at places 1 and 2, and the closure has captured the one of the call. -/
theorem Reachable.undisturbed_closure :
    let f := Expr.function 0 [⟨"x", .number⟩] (.function 1 [] (.symbol "x"))
    let pick := Expr.nativeFunction "pick" [⟨"value", .number⟩] .number ⟨"pick"⟩
    let s := (Store.empty.addRoot.put 0 "f" f).put 0 "pick" pick
    let r := Request.eval 8 0 (.call "pick" [.call "f" [.number 1.0]])
    let answer := r.run Host.handsOn s
    s.Reachable Host.handsOn ∧ s.size = 1 ∧ r.In s ∧ answer.2.tables[0]? = s.tables[0]? ∧
      answer.1.map Kept.place? = some (some 2) ∧ answer.2.size = 3 ∧
      ∀ k ∈ answer.1, k.In answer.2 := by
  intro f pick s r answer
  have hroot : Store.empty.addRoot.Reachable Host.handsOn := .step .empty .addRoot trivial
  have hf : (Store.empty.addRoot.put 0 "f" f).Reachable Host.handsOn :=
    .step hroot (.put 0 "f" f) Nat.zero_lt_one
  have hs : s.Reachable Host.handsOn := .step hf (.put 0 "pick" pick) Nat.zero_lt_one
  have hr : r.In s := Nat.zero_lt_one
  obtain ⟨hsame, hwithin⟩ :=
    (Reachable.undisturbed Host.handsOn_givesBack.confined hs).2.2 r hr
  exact ⟨hs, rfl, hr, hsame 0 Nat.zero_lt_one, by decide +kernel, by decide +kernel, hwithin⟩

end Store

end Reckoner
