import Mathlib
import Reckoner.Proofs.Eval.Ends
import Reckoner.Proofs.Eval.Host
import Reckoner.Proofs.Expr.WellFormed
import Reckoner.Proofs.Scope.Lookup

/-! # Evaluation has enough fuel

Host code adds no frame to the stack when it reads its arguments.  Where host code only ever stands
as the body of a function, what it reads is not host code again, so between two frames an
evaluation only goes down into the parts of one expression.  The stack bounds how often that can
start over, and the fuel of an evaluation suffices on every host that makes no closures larger than
those at hand.
-/
namespace Reckoner

/-- Host code stands in an expression only as the whole body of a function. -/
inductive Expr.Placed : Expr → Prop where
  | number (x : Float) : Placed (.number x)
  | boolean (b : Bool) : Placed (.boolean b)
  | symbol (n : String) : Placed (.symbol n)
  | binary {l r : Expr} (op : Operator) (hl : Placed l) (hr : Placed r) : Placed (.binary op l r)
  | parameter (p : Parameter) : Placed (.parameter p)
  | function {b : Expr} (m : Nat) (ps : List Parameter) (hb : Placed b) :
      Placed (.function m ps b)
  | native (m : Nat) (ps : List Parameter) (code : NativeCode) :
      Placed (.function m ps (.native code))
  | call {args : List Expr} (f : String) (h : ∀ a ∈ args, Placed a) : Placed (.call f args)

theorem Expr.WellFormed.placed {e : Expr} (h : e.WellFormed) : e.Placed := by
  induction h with
  | number x => exact .number x
  | boolean b => exact .boolean b
  | symbol n => exact .symbol n
  | binary op _ _ ihl ihr => exact .binary op ihl ihr
  | function m _ _ ih => exact .function m _ ih
  | native m _ => exact .native m _ _
  | call f _ ih => exact .call f ih

theorem Expr.LiteralOf.wellFormed {ty : Ty} {e : Expr} (h : e.LiteralOf ty) : e.WellFormed := by
  cases h with
  | number x => exact .number x
  | boolean b => exact .boolean b

def Scope.Placed (s : Scope) : Prop :=
  ∀ f ∈ s, ∀ n e, f.table.get? n = some e → e.Placed

def Value.Placed : Value → Prop
  | .function c => c.literal.Placed ∧ c.scope.Placed
  | _ => True

/-- An expression with host code in its place and at most `w` nodes. -/
structure Expr.Bounded (w : Nat) (e : Expr) : Prop where
  placed : e.Placed
  size_le : e.size ≤ w

theorem Expr.LiteralOf.bounded {w : Nat} {ty : Ty} {e : Expr} (h : e.LiteralOf ty) (hw : 1 ≤ w) :
    e.Bounded w := by
  cases h with
  | number x => exact ⟨.number x, hw⟩
  | boolean b => exact ⟨.boolean b, hw⟩

def Scope.Bounded (w : Nat) (s : Scope) : Prop :=
  ∀ f ∈ s, ∀ n e, f.table.get? n = some e → e.Bounded w

theorem Scope.Bounded.placed {w : Nat} {s : Scope} (h : s.Bounded w) : s.Placed :=
  fun f hf n e he => (h f hf n e he).placed

def Value.Bounded (w : Nat) : Value → Prop
  | .function c => c.literal.Bounded w ∧ c.scope.Bounded w
  | _ => True

/-- A host whose functions give no closure that is larger than all that they were given, or has host
code out of its place if those have none. -/
def Host.Bounded (host : Host) : Prop :=
  ∀ w, host.Keeps (Value.Bounded w)

theorem Host.GivesBack.bounded {host : Host} (h : host.GivesBack) : host.Bounded :=
  fun _ => h.keeps (fun _ => trivial) fun _ => trivial

theorem Host.GivesBack.placed {host : Host} (h : host.GivesBack) : host.Keeps Value.Placed :=
  h.keeps (fun _ => trivial) fun _ => trivial

theorem Prelude.bounded : host.Bounded :=
  givesBack.bounded

namespace Scope.Bounded

variable {w : Nat} {s : Scope}

theorem resolve? (hs : s.Bounded w) {n : String} {e : Expr} {env : Scope}
    (h : s.resolve? n = some (e, env)) : e.Bounded w ∧ env.Bounded w :=
  forall_resolve? hs h

theorem activate (hs : s.Bounded w) (ps : List Parameter) {args : List Expr}
    (hargs : ∀ a ∈ args, a.Bounded w) : (s.activate ps args).Bounded w :=
  forall_activate hs ps hargs

end Scope.Bounded

namespace Eval

variable {host : Host} {w fuel : Nat} {s : Scope}

/-- With this fuel no evaluation of bounded expressions stops for want of it. -/
def Suffices (host : Host) (w fuel : Nat) : Prop :=
  ∀ ⦃stack : CallStack⦄ ⦃s : Scope⦄ ⦃e : Expr⦄, s.Bounded w → e.Bounded w →
    stack.room * (w + 2) + e.size ≤ fuel →
      Ends (· ≠ .exhausted) (Value.Bounded w) (host.evalWithin fuel stack s e)

theorem bounded_of_apply {op : Operator} {left right v : Value}
    (h : op.apply left right = .ok v) : v.Bounded w := by
  rcases Operator.simple_of_apply h with ⟨x, rfl⟩ | ⟨b, rfl⟩ <;> trivial

theorem room_mul {room inner : Nat} (h : inner + 1 = room) :
    room * (w + 2) = inner * (w + 2) + (w + 2) := by
  rw [← h, Nat.succ_mul]

section Ending

variable (hhost : host.Keeps (Value.Bounded w))
include hhost

/-- The body of a function needs one step more, since host code reads its arguments from there. -/
theorem ends_body (ih : ∀ k ≤ fuel, Suffices host w k) {stack : CallStack} {m : Nat}
    {ps : List Parameter} {body : Expr} {args : List Expr} (hs : s.Bounded w)
    (hf : (Expr.function m ps body).Bounded w) (hargs : ∀ a ∈ args, a.Bounded w)
    (hfuel : stack.room * (w + 2) + w + 1 ≤ fuel) :
    Ends (· ≠ .exhausted) (Value.Bounded w)
      (host.evalWithin fuel stack (s.activate ps args) body) := by
  have hactive := hs.activate ps hargs
  have hsize := hf.size_le
  rw [Expr.size] at hsize
  cases hf.placed with
  | function _ _ hb => exact ih fuel (Nat.le_refl _) hactive ⟨hb, by omega⟩ (by omega)
  | native _ _ code =>
    obtain ⟨k, rfl⟩ : ∃ k, fuel = k + 1 := ⟨fuel - 1, by omega⟩
    rw [Host.evalWithin]
    have hread : ∀ n ∈ code.params, ∀ bound env,
        (s.activate ps args).resolve? n = some (bound, env) →
          Ends (· ≠ .exhausted) (Value.Bounded w) (host.evalWithin k stack env bound) := by
      intro n _ bound env hn
      obtain ⟨hbound, henv⟩ := hactive.resolve? hn
      have hle := hbound.size_le
      exact ih k (Nat.le_succ k) henv hbound (by omega)
    refine (Ends.readArguments (by simp) hread).bind fun vs hvs => ?_
    exact Ends.settle_native (by simp) fun v hv => hhost _ vs v hvs.2 hv

/-- A call ends if fuel is enough for what it calls and for its arguments. -/
theorem ends_call (ih : ∀ k ≤ fuel, Suffices host w k) {stack : CallStack} {f : String}
    {args : List Expr} (hs : s.Bounded w) (hargs : ∀ a ∈ args, a.Bounded w)
    (hfuel : ∀ a ∈ args, stack.room * (w + 2) + a.size ≤ fuel)
    (hroom : stack.room * (w + 2) ≤ fuel) :
    Ends (· ≠ .exhausted) (Value.Bounded w) (host.evalWithin (fuel + 1) stack s (.call f args)) := by
  rw [Host.evalWithin]
  split
  · exact Ends.raise (by simp)
  · rename_i mark ps body env hf
    obtain ⟨hbound, -⟩ := hs.resolve? hf
    split
    · refine Ends.enter (by simp) fun inner hinner => ?_
      have hmul := room_mul (w := w) hinner
      exact ends_body hhost ih hs hbound hargs (by omega)
    · exact Ends.raise (by simp)
  · rename_i bound env _ hf
    obtain ⟨hbound, henv⟩ := hs.resolve? hf
    have hle := hbound.size_le
    have hcallee : Ends (· ≠ .exhausted) (Value.Bounded w)
        (enter stack (.symbol f) fun stack => host.evalWithin fuel stack env bound) := by
      refine Ends.enter (by simp) fun inner hinner => ?_
      have hmul := room_mul (w := w) hinner
      exact ih fuel (Nat.le_refl _) henv hbound (by omega)
    refine hcallee.bind fun v hv => ?_
    split
    · rename_i c
      obtain ⟨hliteral, hscope⟩ := hv
      split
      · rename_i harity
        have hvalues : Ends (· ≠ .exhausted) (List.Forall₂ (fun _ _ => True) args)
            (evalAll (host.evalWithin fuel stack s) args) := by
          apply Ends.evalAll
          rw [List.forall₂_same]
          intro a ha
          have ha := ih fuel (Nat.le_refl _) hs (hargs a ha) (hfuel a ha)
          exact ha.mono (fun _ h => h) (by simp)
        refine hvalues.bind fun values hlen => ?_
        apply Ends.callClosure (harity.trans hlen.length_eq) (by simp) (by simp)
        intro inner es hinner hes
        have hmul := room_mul (w := w) hinner
        have hone : 1 ≤ w := Nat.le_trans (Expr.size_pos _) hliteral.size_le
        refine ends_body hhost ih hscope hliteral (fun e he => ?_) (by omega)
        obtain ⟨ty, hty⟩ := Expr.exists_literalOf_of_mem hes he
        exact hty.bounded hone
      · exact Ends.raise (by simp)
    · exact Ends.raise (by simp)

/-- Fuel for the nodes of one expression, and again for each frame that the stack has room for. -/
theorem suffices_all (fuel : Nat) :
    Suffices host w fuel := by
  induction fuel using Nat.strongRecOn with
  | ind fuel ih =>
    intro stack s e hs he hfuel
    have hpos := e.size_pos
    obtain ⟨k, rfl⟩ : ∃ k, fuel = k + 1 := ⟨fuel - 1, by omega⟩
    have hk : ∀ j ≤ k, Suffices host w j := fun j hj => ih j (by omega)
    have hsize := he.size_le
    cases he.placed with
    | number x => trivial
    | boolean b => trivial
    | symbol n =>
      rw [Host.evalWithin]
      split
      · exact Ends.raise (by simp)
      · rename_i bound env hn
        obtain ⟨hbound, henv⟩ := hs.resolve? hn
        have hle := hbound.size_le
        refine Ends.enter (by simp) fun inner hinner => ?_
        have hmul := room_mul (w := w) hinner
        exact hk k (Nat.le_refl _) henv hbound (by omega)
    | @binary l r op hl hr =>
      rw [Expr.size] at hsize hfuel
      rw [Host.evalWithin]
      refine Ends.bind (hk k (Nat.le_refl _) hs ⟨hl, by omega⟩ (by omega)) fun left _ => ?_
      refine Ends.bind (hk k (Nat.le_refl _) hs ⟨hr, by omega⟩ (by omega)) fun right _ => ?_
      exact Ends.settle_apply (by simp) fun v hv => bounded_of_apply hv
    | parameter p =>
      rw [Host.evalWithin]
      split
      · rename_i v hv
        cases hty : p.ty <;> rw [hty] at hv <;> cases hv <;> trivial
      · exact Ends.raise (by simp)
    | function m ps hb => exact ⟨he, hs⟩
    | native m ps code => exact ⟨he, hs⟩
    | @call args f hargs =>
      rw [Expr.size] at hsize hfuel
      refine ends_call hhost hk hs (fun a ha => ⟨hargs a ha, ?_⟩) (fun a ha => ?_) (by omega)
      · have := Expr.size_le_sizeAll ha
        omega
      · have := Expr.size_le_sizeAll ha
        omega

theorem ne_exhausted_of_bounded {stack : CallStack} {e : Expr} (hs : s.Bounded w)
    (he : e.Bounded w) (hfuel : stack.room * (w + 2) + e.size ≤ fuel) :
    host.evalWithin fuel stack s e ≠ .error .exhausted := by
  intro h
  have hends := suffices_all hhost fuel hs he hfuel
  rw [h] at hends
  exact hends rfl

end Ending

theorem size_le_of_get? {s : Scope} {f : Frame} (hf : f ∈ s) {n : String} {e : Expr}
    (h : f.table.get? n = some e) : e.size ≤ s.size := by
  obtain ⟨front, rest, hentries, -⟩ := List.lookup_eq_some_iff.mp h
  have hentry : e ∈ f.table.entries.map (·.2) := by simp [hentries]
  have hframe := Expr.size_le_sizeAll hentry
  induction s with
  | nil => cases hf
  | cons g outer ih =>
    have hsize : Scope.size (g :: outer) =
        1 + Expr.sizeAll (g.table.entries.map (·.2)) + Scope.size outer := rfl
    rcases List.mem_cons.mp hf with rfl | hf
    · omega
    · have := ih hf
      omega

theorem le_budget (limit : Nat) (s : Scope) (e : Expr) :
    limit * (s.size + e.size + 2) + e.size ≤ budget limit (s.size + e.size + 1) := by
  calc limit * (s.size + e.size + 2) + e.size
      ≤ limit * (s.size + e.size + 2) + (s.size + e.size + 2) := by omega
    _ = (limit + 1) * (s.size + e.size + 2) := (Nat.succ_mul _ _).symm
    _ ≤ budget limit (s.size + e.size + 1) := Nat.le_mul_of_pos_right _ (Nat.succ_pos _)

/-- Where host code is in its place, an evaluation ends with a value or an error. -/
theorem eval_ne_exhausted (limit : Nat) {s : Scope} {e : Expr}
    (hhost : host.Keeps (Value.Bounded (s.size + e.size)))
    (hs : s.Placed) (he : e.Placed) : host.eval limit s e ≠ .error .exhausted := by
  have hbounded : s.Bounded (s.size + e.size) := fun f hf n d hd =>
    ⟨hs f hf n d hd, Nat.le_add_right_of_le (size_le_of_get? hf hd)⟩
  exact ne_exhausted_of_bounded hhost hbounded ⟨he, Nat.le_add_left _ _⟩ (le_budget limit s e)

end Eval

end Reckoner
