import Mathlib
import Reckoner.Proofs.Scope.Reachable
import Reckoner.Workbench

/-! # What is on a workbench

All that a workbench does with its store are actions that a program can do, so its store is one that
programs reach.  The tables at hand and the values found so far stand in that store, and these values
are the ones that evaluation gives without a store.
-/
namespace Reckoner.Workbench

/-- The tables at hand and the values found so far stand in a store that a program can have. -/
structure Sound (w : Workbench) : Prop where
  store : w.store.Reachable Prelude.host
  listed : ∀ p ∈ w.listed, p < w.store.size
  values : ∀ k ∈ w.values, k.In w.store

namespace Sound

variable {w w' : Workbench}

theorem ordered (h : w.Sound) : w.store.Ordered :=
  h.store.ordered Prelude.confined

/-- An action keeps what is there, and something may be added that stands in the store after it. -/
theorem act (h : w.Sound) {a : Store.Action} (ha : a.In w.store)
    (hstore : w'.store = a.run Prelude.host w.store)
    (hlisted : ∀ p ∈ w'.listed, p ∈ w.listed ∨ p < w'.store.size)
    (hvalues : ∀ k ∈ w'.values, k ∈ w.values ∨ k.In w'.store) : w'.Sound := by
  have hsize : w.store.size ≤ w'.store.size := by
    rw [hstore]
    exact h.ordered.size_le_action Prelude.confined ha
  refine ⟨?_, fun p hp => ?_, fun k hk => ?_⟩
  · rw [hstore]
    exact .step h.store a ha
  · rcases hlisted p hp with hp | hp
    · exact (h.listed p hp).trans_le hsize
    · exact hp
  · rcases hvalues k hk with hk | hk
    · exact fun p hp => (h.values k hk p hp).trans_le hsize
    · exact hk

theorem enlist (h : w.Sound) {p : Nat} (hp : p < w.store.size) : (w.enlist p).1.Sound := by
  refine ⟨h.store, fun q hq => ?_, h.values⟩
  rcases Array.mem_push.mp hq with hq | rfl
  · exact h.listed q hq
  · exact hp

theorem openRoot (h : w.Sound) : w.openRoot.1.Sound := by
  have hopen : Sound { w with store := w.store.addRoot } :=
    h.act (a := .addRoot) trivial rfl (fun _ hp => .inl hp) fun _ hk => .inl hk
  exact hopen.enlist (by simp [Store.addRoot])

theorem openChild (h : w.Sound) {p : Nat} (hp : p < w.store.size) (purpose : Purpose) :
    (w.openChild p purpose).1.Sound := by
  have hopen : Sound { w with store := w.store.addChild p purpose } :=
    h.act (a := .addChild p purpose) hp rfl (fun _ hp => .inl hp) fun _ hk => .inl hk
  exact hopen.enlist (by simp [Store.addChild])

theorem put (h : w.Sound) {p : Nat} (hp : p < w.store.size) (name : String) (e : Expr) :
    (w.put p name e).Sound :=
  h.act (a := .put p name (w.stamp e).2) hp rfl (fun _ hp => .inl hp) fun _ hk => .inl hk

theorem remove (h : w.Sound) {p : Nat} (hp : p < w.store.size) (name : String) :
    (w.remove p name).Sound :=
  h.act (a := .remove p name) hp rfl (fun _ hp => .inl hp) fun _ hk => .inl hk

/-- The built-in functions are bound one after the other. -/
theorem install (h : w.Sound) {p : Nat} (hp : p < w.store.size) : (w.install p).Sound := by
  unfold Workbench.install
  generalize Prelude.bindings = bindings
  induction bindings generalizing w with
  | nil => exact h
  | cons b bindings ih =>
    exact ih (h.put hp b.1 b.2) (hp.trans_eq (Store.size_modify w.store p _).symm)

/-- The value that a request gives is kept beside the store after it. -/
theorem keep (h : w.Sound) {r : Store.Request} (hr : r.In w.store) {x : Work Halt Kept}
    (hx : r.run Prelude.host w.store = (x.run w.store).map Except.toOption id) :
    (w.keep x).1.Sound := by
  obtain ⟨-, -, hwithin⟩ := h.ordered.request Prelude.confined hr
  rcases hrun : x.run w.store with ⟨outcome, s'⟩
  rw [hrun, Prod.map_apply, id] at hx
  rw [hx] at hwithin
  have hstore : s' = (Store.Action.ask r).run Prelude.host w.store := (congrArg Prod.snd hx).symm
  rw [Workbench.keep, hrun]
  cases outcome with
  | error halt => exact h.act (a := .ask r) hr hstore (fun _ hp => .inl hp) fun _ hk => .inl hk
  | ok k =>
    refine h.act (a := .ask r) hr hstore (fun _ hp => .inl hp) fun k' hk' => ?_
    rcases Array.mem_push.mp hk' with hk' | rfl
    · exact .inl hk'
    · exact .inr (hwithin _ rfl)

theorem eval (h : w.Sound) {p : Nat} (hp : p < w.store.size) (e : Expr) :
    (w.eval p e).1.Sound := by
  have hstamp : Sound (w.stamp e).1 := ⟨h.store, h.listed, h.values⟩
  exact hstamp.keep (r := .eval (w.stamp e).1.limit p (w.stamp e).2) hp rfl

theorem evalBody (h : w.Sound) {p : Nat} (hp : p < w.store.size) (body : Expr) :
    (w.evalBody p body).1.Sound :=
  h.keep (r := .eval w.limit p body) hp rfl

/-- The scope that a closure of the store has captured has its place there, and none is opened for it. -/
theorem call_eq_keep (h : w.Sound) {p : Nat} (hp : p < w.store.size) (m : Nat) (ps : List Parameter)
    (body : Expr) (args : List Value) :
    w.call ⟨m, ps, body, w.store.scope p⟩ args =
      w.keep (Eval.Stored.call Prelude.host w.limit ps body p args) := by
  rw [Workbench.call, h.ordered.house_scope hp]

theorem call (h : w.Sound) {m : Nat} {ps : List Parameter} {body : Expr} {p : Nat}
    (hp : p < w.store.size) {args : List Kept} (hargs : ∀ k ∈ args, k.In w.store) :
    (w.call ⟨m, ps, body, w.store.scope p⟩ (args.map (·.value w.store))).1.Sound := by
  have hplace : (Kept.function m ps body p).In w.store := by
    intro q hq
    cases hq
    exact hp
  rw [h.call_eq_keep hp]
  exact h.keep (r := .call w.limit m ps body p args) ⟨hplace, hargs⟩ rfl

theorem captured (h : w.Sound) {p : Nat} (hp : p < w.store.size) : (w.captured p).1.Sound := by
  unfold Workbench.captured
  split
  · exact h
  · exact h.enlist hp

/-- A new workbench has its one table in the store. -/
theorem start (limit : Nat) (bare : Bool) : (Workbench.start limit bare).Sound := by
  have hempty : Sound ⟨.empty, #[], #[], 0, limit⟩ :=
    ⟨.empty, (fun _ hp => nomatch hp), fun _ hk => nomatch hk⟩
  have hopen := hempty.openRoot
  have hroot : 0 < (Workbench.openRoot ⟨.empty, #[], #[], 0, limit⟩).1.store.size := Nat.zero_lt_one
  unfold Workbench.start
  cases bare with
  | true => exact hopen
  | false => exact (hopen.put hroot _ _).install Nat.zero_lt_one

/-- What is kept goes with what the evaluation comes to without a store, or both fail in the same
way. -/
theorem keep_follows {x : Work Halt Kept} {y : Eval.Result}
    (hx : Work.Tracks w.store w.store Kept.Holds x y) :
    Follows (fun _ => False)
      (fun index v => ∃ k, (w.keep x).1.values[index]? = some k ∧ k.Holds (w.keep x).1.store v)
      (w.keep x).2 y := by
  have hfollows := hx.follows
  rcases hrun : x.run w.store with ⟨outcome, s'⟩
  rw [hrun] at hfollows
  rw [Workbench.keep, hrun]
  cases outcome with
  | error halt =>
    obtain rfl := hfollows.resolve_left id
    exact .error halt
  | ok k =>
    obtain ⟨v, rfl, hk⟩ := hfollows
    exact .ok ⟨k, Array.getElem?_push_size, hk⟩

/-- On a workbench an expression has the value that it has in the scope of its place, on the host of a
session. -/
theorem eval_follows (h : w.Sound) {p : Nat} (hp : p < w.store.size) (e : Expr) :
    Follows (fun _ => False)
      (fun index v => ∃ k, (w.eval p e).1.values[index]? = some k ∧ k.Holds (w.eval p e).1.store v)
      (w.eval p e).2 (Eval.eval w.limit (w.store.view p) (w.stamp e).2) :=
  keep_follows (w := (w.stamp e).1)
    (Eval.Stored.eval_tracks Prelude.blind Prelude.givesBack w.limit h.ordered hp _)

/-- A call on a workbench gives what the call gives without a store. -/
theorem call_follows (h : w.Sound) (m : Nat) (ps : List Parameter) (body : Expr) {p : Nat}
    (hp : p < w.store.size) {ks : List Kept} {vs : List Value}
    (hks : List.Forall₂ (Kept.Holds w.store) ks vs) :
    let called := w.call ⟨m, ps, body, w.store.scope p⟩ (ks.map (·.value w.store))
    Follows (fun _ => False)
      (fun index v => ∃ k, called.1.values[index]? = some k ∧ k.Holds called.1.store v)
      called.2 (Prelude.host.call w.limit ⟨m, ps, body, w.store.view p⟩ vs) := by
  intro called
  simp only [called, h.call_eq_keep hp]
  exact keep_follows
    (Eval.Stored.call_tracks Prelude.blind Prelude.givesBack w.limit h.ordered m ps body hp hks)

end Sound

/-- One step of work with the tables at hand and the values found so far. -/
inductive Step (w : Workbench) : Workbench → Prop where
  | openRoot : Step w w.openRoot.1
  | openChild {p : Nat} (hp : p ∈ w.listed) (purpose : Purpose) : Step w (w.openChild p purpose).1
  | put {p : Nat} (hp : p ∈ w.listed) (name : String) (e : Expr) : Step w (w.put p name e)
  | remove {p : Nat} (hp : p ∈ w.listed) (name : String) : Step w (w.remove p name)
  | install {p : Nat} (hp : p ∈ w.listed) : Step w (w.install p)
  | eval {p : Nat} (hp : p ∈ w.listed) (e : Expr) : Step w (w.eval p e).1
  | evalBody {p : Nat} (hp : p ∈ w.listed) (body : Expr) : Step w (w.evalBody p body).1
  | call {k : Kept} (hk : k ∈ w.values) {c : Closure} (hc : k.value w.store = .function c)
      {args : List Kept} (hargs : ∀ a ∈ args, a.In w.store) :
      Step w (w.call c (args.map (·.value w.store))).1
  | captured {k : Kept} (hk : k ∈ w.values) {p : Nat} (hp : k.place? = some p) :
      Step w (w.captured p).1

theorem Step.sound {w w' : Workbench} (hstep : Step w w') (h : w.Sound) : w'.Sound := by
  cases hstep with
  | openRoot => exact h.openRoot
  | openChild hp purpose => exact h.openChild (h.listed _ hp) purpose
  | put hp name e => exact h.put (h.listed _ hp) name e
  | remove hp name => exact h.remove (h.listed _ hp) name
  | install hp => exact h.install (h.listed _ hp)
  | eval hp e => exact h.eval (h.listed _ hp) e
  | evalBody hp body => exact h.evalBody (h.listed _ hp) body
  | @call k hk c hc args hargs =>
    cases k with
    | number x => cases hc
    | boolean b => cases hc
    | function m ps body p =>
      cases hc
      exact h.call (h.values _ hk p rfl) hargs
  | captured hk hp => exact h.captured (h.values _ hk _ hp)

/-- Whatever is done on a workbench, its store is one that programs reach, and all that is at hand
stands there. -/
theorem sound_of_steps {limit : Nat} {bare : Bool} {w : Workbench}
    (h : Relation.ReflTransGen Step (start limit bare) w) : w.Sound := by
  induction h with
  | refl => exact .start limit bare
  | tail _ hstep ih => exact hstep.sound ih

end Reckoner.Workbench
