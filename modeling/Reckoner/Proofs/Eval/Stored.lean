import Mathlib
import Reckoner.Eval.Stored
import Reckoner.Proofs.Eval.Simulation
import Reckoner.Proofs.Scope.Work

/-! # Evaluation in a store

Evaluation at a place of a store touches no table that was there before, comes to what evaluation in
the scope of the place comes to, and gives closures that have captured places of the store.  The two
evaluations hand different closures to host code, the one with places in their scopes and the other
without, so the host must not look into these scopes.  And it must give no closures of its own: what
these have captured would have no place in the store.
-/
namespace Reckoner

namespace Kept

/-- The value without a store: a closure has captured the scope of its place. -/
def view (s : Store) : Kept → Value
  | number x => .number x
  | boolean b => .boolean b
  | function m ps b p => .function ⟨m, ps, b, s.view p⟩

def Holds (s : Store) (k : Kept) (v : Value) : Prop :=
  k.In s ∧ v = k.view s

variable {s s' : Store} {k : Kept} {v : Value}

theorem Holds.grow (h : k.Holds s v) (hgrows : s.Grows s') (hs : s.Ordered) (hs' : s'.Ordered) :
    k.Holds s' v := by
  obtain ⟨hin, rfl⟩ := h
  refine ⟨hin.grow hgrows, ?_⟩
  cases k with
  | number x => rfl
  | boolean b => rfl
  | function m ps b p =>
    rw [view, view, hgrows.view_eq hs hs' (hin p rfl)]

end Kept

/-- Closures of one function literal: the first has captured the scope of a place as lookups go by it,
the second the same scope with its places. -/
def Closure.Housed (s : Store) (c c' : Closure) : Prop :=
  ∃ p < s.size, c.scope = s.view p ∧ c' = { c with scope := s.scope p }

theorem Closure.Housed.literal_eq {s : Store} {c c' : Closure} (h : c.Housed s c') :
    c'.literal = c.literal := by
  obtain ⟨p, -, -, rfl⟩ := h
  rfl

/-- The frames of a scope show whether it has places. -/
theorem Store.Ordered.scope_ne_view {s : Store} (hs : s.Ordered) {p q : Nat} (hp : p < s.size)
    (hq : q < s.size) : s.scope p ≠ s.view q := by
  obtain ⟨t, ht⟩ := exists_table hp
  obtain ⟨u, hu⟩ := exists_table hq
  rw [hs.scope_eq ht, hs.view_eq hu]
  intro h
  cases (Frame.mk.inj (List.cons.inj h).1).2.2

namespace Kept

variable {s s' : Store} {k : Kept} {v : Value}

/-- As an operand or an argument, a kept value is as good as the value. -/
theorem Holds.alike (h : k.Holds s v) : Value.Alike (Closure.Housed s) v (k.value s) := by
  obtain ⟨hin, rfl⟩ := h
  cases k with
  | number x => exact .number x
  | boolean b => exact .boolean b
  | function m ps b p => exact .function ⟨p, hin p rfl, rfl, rfl⟩

theorem alike_map {ks : List Kept} {vs : List Value} (h : List.Forall₂ (Holds s) ks vs) :
    List.Forall₂ (Value.Alike (Closure.Housed s)) vs (ks.map (·.value s)) := by
  induction h with
  | nil => exact .nil
  | cons hk _ ih => exact .cons (Holds.alike hk) ih

theorem scope_of_value {c : Closure} (h : k.value s = .function c) (hin : k.In s) :
    ∃ p < s.size, c.scope = s.scope p := by
  cases k with
  | number x => cases h
  | boolean b => cases h
  | function m ps b p =>
    cases h
    exact ⟨p, hin p rfl, rfl⟩

theorem scope_of_holds {c : Closure} (h : k.Holds s (.function c)) :
    ∃ p < s.size, c.scope = s.view p := by
  obtain ⟨hin, heq⟩ := h
  cases k with
  | number x => cases heq
  | boolean b => cases heq
  | function m ps b p =>
    cases heq
    exact ⟨p, hin p rfl, rfl⟩

theorem exists_of_forall₂ {ks : List Kept} {vs : List Value} (h : List.Forall₂ (Holds s) ks vs) :
    (∀ k ∈ ks, ∃ v, Holds s k v) ∧ ∀ v ∈ vs, ∃ k, Holds s k v := by
  induction h with
  | nil => simp
  | cons h _ ih =>
    exact ⟨List.forall_mem_cons.mpr ⟨⟨_, h⟩, ih.1⟩, List.forall_mem_cons.mpr ⟨⟨_, h⟩, ih.2⟩⟩

/-- No closure is both without the places of its scope and with them. -/
theorem not_mem_both (hs : s.Ordered) {ks : List Kept} {vs : List Value}
    (hks : List.Forall₂ (Holds s) ks vs) {c : Closure} (hc : .function c ∈ vs)
    (hc' : .function c ∈ ks.map (·.value s)) : False := by
  obtain ⟨k, hk, hvalue⟩ := List.mem_map.mp hc'
  obtain ⟨hleft, hright⟩ := exists_of_forall₂ hks
  obtain ⟨v, hkept⟩ := hleft k hk
  obtain ⟨k', hholds⟩ := hright _ hc
  obtain ⟨p, hp, hscope⟩ := scope_of_value hvalue hkept.1
  obtain ⟨q, hq, hview⟩ := scope_of_holds hholds
  exact hs.scope_ne_view hp hq (hscope.symm.trans hview)

end Kept

namespace Eval.Stored

open Work (Tracks)
open Kept (Holds)

variable {host : Host} {base s : Store} {K : Closure → Closure → Prop}

theorem raise_tracks {α β : Type} {R : Store → α → β → Prop} (hbase : base.Grows s) (hs : s.Ordered)
    (stack : CallStack) (cause : EvalError.Cause) :
    Tracks base s R (raise stack cause) (Eval.raise stack cause) :=
  .throw hbase hs _

theorem enter_tracks {R : Store → Kept → Value → Prop} (hbase : base.Grows s) (hs : s.Ordered)
    (stack : CallStack) (frame : StackFrame) {run : CallStack → Work Halt Kept}
    {run' : CallStack → Result} (hrun : ∀ inner, Tracks base s R (run inner) (run' inner)) :
    Tracks base s R (enter stack frame run) (Eval.enter stack frame run') := by
  unfold enter Eval.enter
  cases stack.push? frame with
  | none => exact raise_tracks hbase hs _ _
  | some inner => exact hrun inner

theorem settle_tracks (hbase : base.Grows s) (hs : s.Ordered) (stack : CallStack)
    {outcome : Except EvalError.Cause Value}
    (hsimple : ∀ v, outcome = .ok v → (∃ x, v = .number x) ∨ ∃ b, v = .boolean b) :
    Tracks base s Holds (settle stack outcome) (Eval.settle stack outcome) := by
  cases outcome with
  | error cause => exact raise_tracks hbase hs stack cause
  | ok v =>
    rcases hsimple v rfl with ⟨x, rfl⟩ | ⟨b, rfl⟩
    · exact ⟨hbase, hs, .ok ⟨(fun _ hp => nomatch hp), rfl⟩⟩
    · exact ⟨hbase, hs, .ok ⟨(fun _ hp => nomatch hp), rfl⟩⟩

theorem run_settle_ok (stack : CallStack) (v : Value) (s : Store) :
    (settle stack (.ok v)).run s = (.ok (Kept.ofValue s v).2, (Kept.ofValue s v).1) := rfl

/-- A closure of the store is kept at the place that it has captured, and nothing is opened for it. -/
theorem settle_closure_tracks (hbase : base.Grows s) (hs : s.Ordered) (stack : CallStack)
    (c : Closure) {p : Nat} (hp : p < s.size) (hscope : c.scope = s.view p) :
    Tracks base s Holds (settle stack (.ok (.function { c with scope := s.scope p })))
      (Eval.settle stack (.ok (.function c))) := by
  obtain ⟨m, ps, b, _⟩ := c
  subst hscope
  have hrun : (settle stack (.ok (.function ⟨m, ps, b, s.scope p⟩))).run s =
      (.ok (.function m ps b p), s) := by
    rw [run_settle_ok, Kept.ofValue, hs.house_scope hp]
  refine ⟨?_, ?_, ?_⟩ <;> rw [hrun]
  · exact hbase
  · exact hs
  · refine .ok ⟨fun q hq => ?_, rfl⟩
    cases hq
    exact hp

/-- Host code that does not look into the scopes of closures, and gives back no other closures than those
it was given, does the same with closures that have places in their scopes. -/
theorem settle_native_tracks (hblind : host.Blind) (hback : host.GivesBack) (hbase : base.Grows s)
    (hs : s.Ordered) (stack : CallStack) (code : NativeCode) {ks : List Kept} {vs : List Value}
    (hks : List.Forall₂ (Holds s) ks vs) :
    Tracks base s Holds
      (settle stack ((host.run code.host (ks.map (·.value s))).mapError (.native code.name)))
      (Eval.settle stack ((host.run code.host vs).mapError (.native code.name))) := by
  have hrun := hblind (fun c c' => c.Housed s c' ∨ c' = c) (fun _ => .inr rfl)
    (fun c c' h => h.elim Closure.Housed.literal_eq fun heq => heq ▸ rfl) code.host vs _
    ((Kept.alike_map hks).imp fun _ _ h => h.imp fun _ _ => .inl)
  cases hv : host.run code.host vs with
  | error message =>
    rw [hv] at hrun
    rw [hrun.resolve_left id]
    exact raise_tracks hbase hs stack _
  | ok v =>
    rw [hv] at hrun
    obtain ⟨v', hv', halike⟩ := hrun
    rw [hv']
    cases halike with
    | number x => exact settle_tracks hbase hs stack fun v hv => by cases hv; exact .inl ⟨x, rfl⟩
    | boolean b => exact settle_tracks hbase hs stack fun v hv => by cases hv; exact .inr ⟨b, rfl⟩
    | @function c _ hc =>
      rcases hc with ⟨p, hp, hscope, rfl⟩ | rfl
      · exact settle_closure_tracks hbase hs stack c hp hscope
      · exact (Kept.not_mem_both hs hks (hback _ _ _ hv) (hback _ _ _ hv')).elim

/-- Binding values one after the other binds their literals, if all of them fit. -/
theorem bindValues_tracks (hbase : base.Grows s) (hs : s.Ordered) (stack : CallStack) {inner : Nat}
    (hinner : base.size ≤ inner) (ps : List Parameter) {vs vs' : List Value}
    (hvs : List.Forall₂ (Value.Alike K) vs vs') :
    Tracks base s (fun s' _ es => s' = s.putAll inner ((ps.map (·.name)).zip es))
      (bindValues stack inner ps vs') (Eval.literals stack ps vs) := by
  induction hvs generalizing ps s with
  | nil => cases ps <;> exact .pure hbase hs rfl
  | @cons v v' vs vs' hv _ ih =>
    cases ps with
    | nil => exact .pure hbase hs rfl
    | cons p ps =>
      simp only [bindValues, Eval.literals, hv.literal?, hv.simpleType?, hv.shape]
      cases v.literal? with
      | none => exact raise_tracks hbase hs _ _
      | some e =>
        dsimp only
        split
        · have hput := hbase.modify hinner (·.insert p.name e)
          obtain ⟨hgrows, hordered, hfollows⟩ :=
            (ih hput (hs.modify inner _) ps).map (P := fun s' _ es =>
              s' = s.putAll inner (((p :: ps).map (·.name)).zip es)) (g := (e :: ·))
              fun s' _ es h => h
          exact ⟨hgrows, hordered, hfollows⟩
        · exact raise_tracks hbase hs _ _

theorem callClosure_tracks (hs : s.Ordered) {run : CallStack → Nat → Expr → Work Halt Kept}
    {run' : CallStack → Scope → Expr → Result}
    (hrun : ∀ s' stack p e, s.Grows s' → s'.Ordered → p < s'.size →
      Tracks s' s' Holds (run stack p e) (run' stack (s'.view p) e))
    (stack : CallStack) (name : String) (m : Nat) (ps : List Parameter) (body : Expr) {p : Nat}
    (hp : p < s.size) {vs vs' : List Value}
    (hvs : List.Forall₂ (Value.Alike K) vs vs') :
    Tracks s s Holds (callClosure run stack name ps body p vs')
      (Eval.callClosure run' stack name ⟨m, ps, body, s.view p⟩ vs) := by
  simp only [callClosure, Eval.callClosure, Closure.arity, hvs.length_eq]
  by_cases hlen : ps.length = vs'.length
  · rw [if_pos hlen, if_pos hlen]
    have hchild : (s.addChild p .activation).Ordered := hs.add fun q hq => by
      cases hq
      exact hp
    have hopen : s.Grows (s.addChild p .activation) := Store.grows_add s _
    refine .openChild ?_
    refine (bindValues_tracks hopen hchild stack (Nat.le_refl _) ps hvs).bind ?_
    rintro _ _ es hgrows hordered rfl
    obtain ⟨-, -, hlt, hview⟩ := hs.opened hp .activation ((ps.map (·.name)).zip es)
    refine enter_tracks hgrows hordered stack _ fun inner => .lift hgrows ?_
    have hbody := hrun _ inner s.size body hgrows hordered hlt
    rw [hview] at hbody
    exact hbody
  · rw [if_neg hlen, if_neg hlen]
    exact raise_tracks (.refl s) hs _ _

theorem evalAll_tracks (hs : s.Ordered) {run : Expr → Work Halt Kept} {run' : Expr → Result}
    (hrun : ∀ s' e, s.Grows s' → s'.Ordered → Tracks s' s' Holds (run e) (run' e))
    (es : List Expr) :
    Tracks s s (fun s' => List.Forall₂ (Holds s')) (evalAll run es) (Eval.evalAll run' es) := by
  induction es generalizing s with
  | nil => exact .pure (.refl s) hs .nil
  | cons e es ih =>
    refine (hrun s e (.refl s) hs).bind fun s₁ k v hgrows hs₁ hk => .lift hgrows ?_
    have hrest := ih hs₁ fun s' e hgrows' => hrun s' e (hgrows.trans hgrows')
    refine hrest.bind fun s₂ ks vs hgrows' hs₂ hks => ?_
    exact .pure hgrows' hs₂ (.cons (hk.grow hgrows' hs₁ hs₂) hks)

theorem readArguments_tracks (hs : s.Ordered) {run : Nat → Expr → Work Halt Kept}
    {run' : Scope → Expr → Result}
    (hrun : ∀ s' p e, s.Grows s' → s'.Ordered → p < s'.size →
      Tracks s' s' Holds (run p e) (run' (s'.view p) e))
    (stack : CallStack) {p : Nat} (hp : p < s.size) (names : List String) :
    Tracks s s (fun s' => List.Forall₂ (Holds s')) (readArguments run stack p names)
      (Eval.readArguments run' stack (s.view p) names) := by
  induction names generalizing s with
  | nil => exact .pure (.refl s) hs .nil
  | cons n names ih =>
    unfold readArguments Eval.readArguments
    refine .get ?_
    obtain ⟨hresolve, hlt⟩ := hs.resolve?_view hp n
    rw [hresolve]
    cases hread : s.read? p n with
    | none => exact raise_tracks (.refl s) hs _ _
    | some found =>
      obtain ⟨bound, env⟩ := found
      dsimp only [Option.map_some]
      refine (hrun s env bound (.refl s) hs (hlt _ _ hread)).bind
        fun s₁ k v hgrows hs₁ hk => .lift hgrows ?_
      have hrest := ih hs₁ (fun s' q e hgrows' => hrun s' q e (hgrows.trans hgrows'))
        (hp.trans_le hgrows.size_le)
      rw [hgrows.view_eq hs hs₁ hp] at hrest
      refine hrest.bind fun s₂ ks vs hgrows' hs₂ hks => ?_
      exact .pure hgrows' hs₂ (.cons (hk.grow hgrows' hs₁ hs₂) hks)

/-- With this fuel, evaluation in a store is evaluation in the scope of its place. -/
def Agrees (host : Host) (fuel : Nat) : Prop :=
  ∀ ⦃s : Store⦄ ⦃p : Nat⦄, s.Ordered → p < s.size → ∀ (stack : CallStack) (e : Expr),
    Tracks s s Holds (evalWithin host fuel stack p e) (host.evalWithin fuel stack (s.view p) e)

namespace Agrees

variable {fuel : Nat}

/-- The parts of an expression are evaluated at its place, where nothing changes in between. -/
theorem part (h : Agrees host fuel) (hs : s.Ordered) {p : Nat} (hp : p < s.size) (stack : CallStack)
    {s' : Store} (e : Expr) (hgrows : s.Grows s') (hs' : s'.Ordered) :
    Tracks s' s' Holds (evalWithin host fuel stack p e) (host.evalWithin fuel stack (s.view p) e) := by
  have he := h hs' (hp.trans_le hgrows.size_le) stack e
  rwa [hgrows.view_eq hs hs' hp] at he

theorem callLiteral (h : Agrees host fuel) (hs : s.Ordered) {p : Nat} (hp : p < s.size)
    (stack : CallStack) (f : String) (ps : List Parameter) (body : Expr) (args : List Expr) :
    Tracks s s Holds
      (Work.openWith p .activation ((ps.map (·.name)).zip args) >>= fun inner =>
        enter stack (.call f) fun stack => evalWithin host fuel stack inner body)
      (Eval.enter stack (.call f) fun stack =>
        host.evalWithin fuel stack ((s.view p).activate ps args) body) := by
  refine .openWith hs hp .activation _ fun s₁ inner hgrows hs₁ hinner hview => ?_
  refine enter_tracks hgrows hs₁ stack _ fun frames => .lift hgrows ?_
  have hbody := h hs₁ hinner frames body
  rw [hview] at hbody
  exact hbody

/-- A value is called with arguments that are evaluated at the place of the call. -/
theorem callKept (h : Agrees host fuel) (hs : s.Ordered) {p : Nat} (hp : p < s.size) (stack : CallStack)
    (f : String) {m : Nat} {ps : List Parameter} {body : Expr} {q : Nat} (hq : q < s.size)
    (args : List Expr) :
    Tracks s s Holds
      (do
        let values ← evalAll (evalWithin host fuel stack p) args
        let s ← get
        callClosure (evalWithin host fuel) stack f ps body q (values.map (·.value s)))
      (do
        let values ← Eval.evalAll (host.evalWithin fuel stack (s.view p)) args
        Eval.callClosure (host.evalWithin fuel) stack f ⟨m, ps, body, s.view q⟩ values) := by
  have hvalues := evalAll_tracks hs (fun s' e => h.part hs hp stack e) args
  refine hvalues.bind fun s₁ ks vs hgrows hs₁ hks => .get (.lift hgrows ?_)
  have hcall := callClosure_tracks hs₁ (fun s' frames q' e _ hs' hq' => h hs' hq' frames e) stack f m
    ps body (hq.trans_le hgrows.size_le) (Kept.alike_map hks)
  rw [hgrows.view_eq hs hs₁ hq] at hcall
  exact hcall

theorem call (h : Agrees host fuel) (hs : s.Ordered) {p : Nat} (hp : p < s.size) (stack : CallStack)
    (f : String) (args : List Expr) :
    Tracks s s Holds (evalWithin host (fuel + 1) stack p (.call f args))
      (host.evalWithin (fuel + 1) stack (s.view p) (.call f args)) := by
  unfold evalWithin
  refine .get ?_
  obtain ⟨hresolve, hlt⟩ := hs.resolve?_view hp f
  split
  · rename_i hread
    rw [hread] at hresolve
    rw [evalWithin_call_unbound fuel stack args hresolve]
    exact raise_tracks (.refl s) hs _ _
  · rename_i m ps body env hread
    rw [hread] at hresolve
    rw [evalWithin_call_literal fuel stack args hresolve]
    by_cases hlen : ps.length = args.length
    · rw [if_pos hlen, if_pos hlen]
      exact h.callLiteral hs hp stack f ps body args
    · rw [if_neg hlen, if_neg hlen]
      exact raise_tracks (.refl s) hs _ _
  · rename_i bound env hbound hread
    rw [hread] at hresolve
    rw [evalWithin_call_other fuel stack args hresolve hbound]
    have hcallee := enter_tracks (.refl s) hs stack (.symbol f) fun inner =>
      h hs (hlt _ _ hread) inner bound
    refine hcallee.bind fun s₁ k v hgrows hs₁ hk => .lift hgrows ?_
    obtain ⟨hin, rfl⟩ := hk
    cases k with
    | number x => exact raise_tracks (.refl s₁) hs₁ _ _
    | boolean b => exact raise_tracks (.refl s₁) hs₁ _ _
    | function m ps body q =>
      dsimp only [Kept.view]
      rw [← hgrows.view_eq hs hs₁ hp]
      by_cases hlen : ps.length = args.length
      · have harity : Closure.arity ⟨m, ps, body, s₁.view q⟩ = args.length := hlen
        rw [if_pos hlen, if_pos harity]
        exact h.callKept hs₁ (hp.trans_le hgrows.size_le) stack f (hin q rfl) args
      · have harity : ¬Closure.arity ⟨m, ps, body, s₁.view q⟩ = args.length := hlen
        rw [if_neg hlen, if_neg harity]
        exact raise_tracks (.refl s₁) hs₁ _ _

end Agrees

section Hosts

variable (hblind : host.Blind) (hback : host.GivesBack)
include hblind hback

theorem agrees_all (fuel : Nat) : Agrees host fuel := by
  induction fuel with
  | zero => exact fun s p hs _ _ _ => .throw (.refl s) hs _
  | succ fuel ih =>
    intro s p hs hp stack e
    have hrefl : s.Grows s := .refl s
    cases e with
    | number x => exact .pure hrefl hs ⟨(fun _ h => nomatch h), rfl⟩
    | boolean b => exact .pure hrefl hs ⟨(fun _ h => nomatch h), rfl⟩
    | function m ps b =>
      refine .pure hrefl hs ⟨fun q hq => ?_, rfl⟩
      cases hq
      exact hp
    | parameter param =>
      rw [evalWithin, Host.evalWithin]
      cases hty : param.ty with
      | number => exact settle_tracks hrefl hs stack fun v hv => by cases hv; exact .inl ⟨_, rfl⟩
      | boolean => exact settle_tracks hrefl hs stack fun v hv => by cases hv; exact .inr ⟨_, rfl⟩
      | function params result => exact raise_tracks hrefl hs _ _
    | symbol n =>
      rw [evalWithin, Host.evalWithin]
      refine .get ?_
      obtain ⟨hresolve, hlt⟩ := hs.resolve?_view hp n
      rw [hresolve]
      cases hread : s.read? p n with
      | none => exact raise_tracks hrefl hs _ _
      | some found =>
        exact enter_tracks hrefl hs stack _ fun inner => ih hs (hlt _ _ hread) inner found.1
    | binary op l r =>
      rw [evalWithin, Host.evalWithin]
      refine (ih hs hp stack l).bind fun s₁ left v hgrows hs₁ hleft => .lift hgrows ?_
      refine (ih.part hs hp stack r hgrows hs₁).bind fun s₂ right w hgrows' hs₂ hright => .get ?_
      rw [← Value.Alike.apply op (hleft.grow hgrows' hs₁ hs₂).alike hright.alike]
      exact settle_tracks hgrows' hs₂ stack fun v hv => Operator.simple_of_apply hv
    | native code =>
      rw [evalWithin, Host.evalWithin]
      have hread := readArguments_tracks hs (fun s' q d _ hs' hq => ih hs' hq stack d) stack hp
        code.params
      refine hread.bind fun s₁ ks vs hgrows hs₁ hks => .get ?_
      exact settle_native_tracks hblind hback hgrows hs₁ stack code hks
    | call f args => exact ih.call hs hp stack f args

/-- Evaluation in a store comes to what evaluation in the scope of its place comes to, and leaves the
tables that it finds as they are. -/
theorem eval_tracks (limit : Nat) (hs : s.Ordered) {p : Nat} (hp : p < s.size) (e : Expr) :
    Tracks s s Holds (eval host limit p e) (host.eval limit (s.view p) e) := by
  refine .get ?_
  rw [Host.eval, Store.size_view]
  exact agrees_all hblind hback _ hs hp _ e

theorem call_tracks (limit : Nat) (hs : s.Ordered) (m : Nat) (ps : List Parameter) (body : Expr)
    {p : Nat} (hp : p < s.size) {ks : List Kept} {vs : List Value}
    (h : List.Forall₂ (Holds s) ks vs) :
    Tracks s s Holds (call host limit ps body p (ks.map (·.value s)))
      (host.call limit ⟨m, ps, body, s.view p⟩ vs) := by
  have hvs := Kept.alike_map h
  refine .get ?_
  rw [Host.call, Store.size_view, hvs.length_eq]
  exact callClosure_tracks hs
    (fun s' stack q d _ hs' hq => agrees_all hblind hback _ hs' hq stack d) (.ofLimit limit)
    closureName m ps body hp hvs

end Hosts

end Eval.Stored

end Reckoner
