import Mathlib
import Reckoner.Eval.Live
import Reckoner.Proofs.Eval.Ends
import Reckoner.Proofs.Eval.Simulation
import Reckoner.Proofs.Stateful
import Reckoner.Proofs.Typing.Counted

/-! # The live stack

Evaluation on one live stack goes as evaluation does that hands a stack down to each part.  It takes off
every frame that it has put on, whether it fails or not, never holds more frames than the limit, and never
takes a frame off an empty stack.  So the backtrace of an error is what was put on above the frames that
were there before, and it is as long as the limit when the error is that the limit was met.
-/
namespace Reckoner

/-- A live stack that holds some frames and has never held more than its limit. -/
structure LiveStack.Level (stack : CallStack) (s : LiveStack) : Prop where
  frames : s.frames = stack.frames
  limit : s.limit = stack.limit
  deepest : s.deepest ≤ s.limit

/-- A live stack that has never held more frames than some limit, which is its own. -/
structure LiveStack.Within (bound : Nat) (s : LiveStack) : Prop where
  limit : s.limit = bound
  deepest : s.deepest ≤ bound

namespace Eval.Live

open Stateful (Keeps)
open LiveStack (Level)

variable {host : Host} {stack : CallStack} {t : LiveStack}

theorem raise_keeps {α : Type} (ht : t.Level stack) (cause : EvalError.Cause) :
    Keeps (Level stack) t (raise cause : Live α) (Eval.raise stack cause) := by
  rw [Eval.raise, ← ht.frames]
  exact .get (.throw ht _)

theorem outcome_push (frame : StackFrame) (t : LiveStack) :
    (push frame).outcome t =
      if t.limit ≤ t.frames.length then
        some (.error (.error ⟨.recursionLimit t.limit, t.frames⟩), t)
      else some (.ok (), t.add frame) := by
  rw [push, Stateful.outcome_bind]
  change Stateful.outcome (if t.limit ≤ t.frames.length then _ else _) t = _
  split <;> rfl

/-- A frame that was put on is taken off, however what stands between has ended. -/
theorem enter_keeps (ht : t.Level stack) (frame : StackFrame) {run : Live Value}
    {run' : CallStack → Result}
    (hrun : ∀ inner u, LiveStack.Level inner u → Keeps (Level inner) u run (run' inner)) :
    Keeps (Level stack) t (enter frame run) (Eval.enter stack frame run') := by
  obtain ⟨frames, room⟩ := stack
  obtain ⟨hframes, hlimit, hdeepest⟩ := ht
  dsimp only [CallStack.limit] at hframes hlimit
  cases room with
  | zero =>
    have hfull : t.limit ≤ t.frames.length := by rw [hframes]; omega
    refine .between_error ⟨hframes, hlimit, hdeepest⟩ ?_
    rw [outcome_push, if_pos hfull, hframes, hlimit]
    rfl
  | succ room =>
    have hroom : ¬ t.limit ≤ t.frames.length := by rw [hframes]; omega
    have hadd : (t.add frame).Level ⟨frame :: frames, room⟩ := by
      refine ⟨by rw [← hframes]; rfl, ?_, ?_⟩
      · simp only [LiveStack.add, CallStack.limit, List.length_cons]
        omega
      · simp only [LiveStack.add]
        omega
    refine .between (by rw [outcome_push, if_neg hroom]) (hrun _ _ hadd) fun u hu => ?_
    obtain ⟨hframes', hlimit', hdeepest'⟩ := hu
    refine ⟨{ u with frames }, ⟨rfl, ?_, hdeepest'⟩, ?_⟩
    · simp only [CallStack.limit, List.length_cons] at hlimit' ⊢
      omega
    · rw [pop, Stateful.outcome_change, LiveStack.drop?, hframes']
      rfl

theorem settle_keeps (ht : t.Level stack) (outcome : Except EvalError.Cause Value) :
    Keeps (Level stack) t (settle outcome) (Eval.settle stack outcome) := by
  cases outcome with
  | ok v => exact .pure ht v
  | error cause => exact raise_keeps ht cause

theorem literals_keeps (ht : t.Level stack) (ps : List Parameter) (vs : List Value) :
    Keeps (Level stack) t (literals ps vs) (Eval.literals stack ps vs) := by
  induction vs generalizing ps t with
  | nil => cases ps <;> exact .pure ht []
  | cons v vs ih =>
    cases ps with
    | nil => exact .pure ht []
    | cons p ps =>
      rw [literals, Eval.literals]
      cases v.literal? with
      | none => exact raise_keeps ht _
      | some e =>
        dsimp only
        split
        · exact (ih ht ps).bind fun u es hu => .pure hu (e :: es)
        · exact raise_keeps ht _

theorem evalAll_keeps (ht : t.Level stack) {run : Expr → Live Value} {run' : Expr → Result}
    (hrun : ∀ u e, LiveStack.Level stack u → Keeps (Level stack) u (run e) (run' e))
    (es : List Expr) :
    Keeps (Level stack) t (evalAll run es) (Eval.evalAll run' es) := by
  induction es generalizing t with
  | nil => exact .pure ht []
  | cons e es ih =>
    exact (hrun t e ht).bind fun u v hu => (ih hu).bind fun u vs hu => .pure hu (v :: vs)

theorem readArguments_keeps (ht : t.Level stack) {run : Scope → Expr → Live Value}
    {run' : Scope → Expr → Result}
    (hrun : ∀ u s e, LiveStack.Level stack u → Keeps (Level stack) u (run s e) (run' s e))
    (s : Scope) (names : List String) :
    Keeps (Level stack) t (readArguments run s names) (Eval.readArguments run' stack s names) := by
  induction names generalizing t with
  | nil => exact .pure ht []
  | cons n names ih =>
    rw [readArguments, Eval.readArguments]
    cases s.resolve? n with
    | none => exact raise_keeps ht _
    | some found =>
      exact (hrun t _ _ ht).bind fun u v hu => (ih hu).bind fun u vs hu => .pure hu (v :: vs)

theorem callClosure_keeps (ht : t.Level stack) {run : Scope → Expr → Live Value}
    {run' : CallStack → Scope → Expr → Result}
    (hrun : ∀ inner u s e, LiveStack.Level inner u → Keeps (Level inner) u (run s e) (run' inner s e))
    (name : String) (c : Closure) (vs : List Value) :
    Keeps (Level stack) t (callClosure run name c vs) (Eval.callClosure run' stack name c vs) := by
  rw [callClosure, Eval.callClosure]
  split
  · refine (literals_keeps ht c.params vs).bind fun u es hu => ?_
    exact enter_keeps hu _ fun inner w hw => hrun inner w _ _ hw
  · exact raise_keeps ht _

/-- With this fuel, evaluation on a live stack comes to what evaluation comes to with the frames that are on
it, and leaves just these frames on it. -/
def Balances (host : Host) (fuel : Nat) : Prop :=
  ∀ ⦃stack : CallStack⦄ ⦃t : LiveStack⦄, t.Level stack → ∀ (s : Scope) (e : Expr),
    Keeps (Level stack) t (evalWithin host fuel s e) (host.evalWithin fuel stack s e)

theorem Balances.call {fuel : Nat} (h : Balances host fuel) (ht : t.Level stack) (s : Scope) (f : String)
    (args : List Expr) :
    Keeps (Level stack) t (evalWithin host (fuel + 1) s (.call f args))
      (host.evalWithin (fuel + 1) stack s (.call f args)) := by
  rw [evalWithin]
  split
  · rename_i hfound
    rw [evalWithin_call_unbound fuel stack args hfound]
    exact raise_keeps ht _
  · rename_i m ps body env hfound
    rw [evalWithin_call_literal fuel stack args hfound]
    split
    · exact enter_keeps ht _ fun inner u hu => h hu _ _
    · exact raise_keeps ht _
  · rename_i bound env hbound hfound
    rw [evalWithin_call_other fuel stack args hfound hbound]
    refine (enter_keeps ht _ fun inner u hu => h hu env bound).bind fun u v hu => ?_
    cases v with
    | number x => exact raise_keeps hu _
    | boolean b => exact raise_keeps hu _
    | function c =>
      dsimp only
      split
      · refine (evalAll_keeps hu (fun u e hu => h hu s e) args).bind fun w vs hw => ?_
        exact callClosure_keeps hw (fun inner u s e hu => h hu s e) f c vs
      · exact raise_keeps hu _

theorem balances_all (host : Host) (fuel : Nat) : Balances host fuel := by
  induction fuel with
  | zero => exact fun _ _ ht _ _ => .throw ht _
  | succ fuel ih =>
    intro stack t ht s e
    cases e with
    | number x => exact .pure ht _
    | boolean b => exact .pure ht _
    | function m ps b => exact .pure ht _
    | parameter p =>
      rw [evalWithin, Host.evalWithin]
      cases p.ty.default? with
      | none => exact raise_keeps ht _
      | some v => exact .pure ht v
    | symbol n =>
      rw [evalWithin, Host.evalWithin]
      cases s.resolve? n with
      | none => exact raise_keeps ht _
      | some found => exact enter_keeps ht _ fun inner u hu => ih hu _ _
    | binary op l r =>
      rw [evalWithin, Host.evalWithin]
      refine (ih ht s l).bind fun u left hu => ?_
      refine (ih hu s r).bind fun u right hu => ?_
      exact settle_keeps hu _
    | native code =>
      rw [evalWithin, Host.evalWithin]
      refine (readArguments_keeps ht (fun u s e hu => ih hu s e) s code.params).bind fun u vs hu => ?_
      exact settle_keeps hu _
    | call f args => exact ih.call ht s f args

/-- An evaluation on the cleared stack does not depend on what was on the stack. -/
theorem eval_keeps (host : Host) {limit : Nat} (ht : t.Within limit) (s : Scope) (e : Expr) :
    Keeps (LiveStack.Within limit) t (eval host s e) (.ok (host.eval limit s e)) := by
  obtain ⟨hlimit, hdeepest⟩ := ht
  have hclear : t.clear.Level (.ofLimit limit) :=
    ⟨rfl, hlimit.trans (Nat.zero_add limit).symm, hlimit ▸ hdeepest⟩
  obtain ⟨u, ⟨-, hlimit', hdeepest'⟩, hrun⟩ :=
    balances_all host (budget limit (s.size + e.size + 1)) hclear s e
  have hu : u.limit = limit := hlimit'.trans (Nat.zero_add limit)
  refine ⟨u, ⟨hu, hu ▸ hdeepest'⟩, ?_⟩
  change Stateful.outcome (ExceptT.lift (evalWithin host (budget t.limit (s.size + e.size + 1)) s e).run)
    t.clear = _
  rw [Stateful.outcome_attempt, hlimit, hrun]
  rfl

end Eval.Live

/-- A stack with some frames at its bottom, and with room for a number of frames in all. -/
structure CallStack.Above (frames : Backtrace) (limit : Nat) (stack : CallStack) : Prop where
  frames : ∃ inner, stack.frames = inner ++ frames
  limit : stack.limit = limit

/-- An error, if it is one, with a backtrace from such a stack, which is full if the limit was met. -/
def Halt.Above (frames : Backtrace) (limit : Nat) : Halt → Prop
  | .error err => (∃ inner, err.backtrace = inner ++ frames) ∧ err.backtrace.length ≤ limit ∧
      ∀ n, err.cause = .recursionLimit n → err.backtrace.length = limit
  | .exhausted => True

variable {host : Host} {frames : Backtrace} {limit : Nat} {stack inner : CallStack}

theorem CallStack.Above.push? (h : stack.Above frames limit) {f : StackFrame}
    (hinner : stack.push? f = some inner) : inner.Above frames limit := by
  obtain ⟨⟨above, hframes⟩, hlimit⟩ := h
  refine ⟨⟨f :: above, ?_⟩, (limit_of_push? hinner).trans hlimit⟩
  rw [frames_of_push? hinner, hframes]
  rfl

namespace Eval

theorem halt_above (h : stack.Above frames limit) {cause : EvalError.Cause}
    (hcause : ∀ n, cause ≠ .recursionLimit n) :
    Halt.Above frames limit (.error ⟨cause, stack.frames⟩) := by
  obtain ⟨hframes, hlimit⟩ := h
  refine ⟨hframes, ?_, fun n hn => absurd hn (hcause n)⟩
  rw [← hlimit]
  exact Nat.le_add_right _ _

theorem halt_above_of_full (h : stack.Above frames limit) (hfull : stack.room = 0) :
    Halt.Above frames limit (.error ⟨.recursionLimit stack.limit, stack.frames⟩) := by
  obtain ⟨hframes, hlimit⟩ := h
  have hlength : stack.frames.length = limit := by
    rw [← hlimit, CallStack.limit, hfull, Nat.add_zero]
  exact ⟨hframes, hlength.le, fun _ _ => hlength⟩

theorem raise_above {α : Type} {gives : α → Prop} (h : stack.Above frames limit)
    {cause : EvalError.Cause} (hcause : ∀ n, cause ≠ .recursionLimit n) :
    Ends (Halt.Above frames limit) gives (raise stack cause) :=
  .raise (halt_above h hcause)

/-- Errors of evaluations on such stacks show the frames at the bottom. -/
def Shows (host : Host) (frames : Backtrace) (limit fuel : Nat) : Prop :=
  ∀ ⦃stack : CallStack⦄, stack.Above frames limit → ∀ (s : Scope) (e : Expr),
    Ends (Halt.Above frames limit) (fun _ => True) (host.evalWithin fuel stack s e)

theorem Shows.enter {fuel : Nat} (ih : Shows host frames limit fuel)
    (h : stack.Above frames limit) (frame : StackFrame) (s : Scope) (e : Expr) :
    Ends (Halt.Above frames limit) (fun _ => True)
      (enter stack frame fun stack => host.evalWithin fuel stack s e) :=
  .enter_push (halt_above_of_full h) fun _ hinner => ih (h.push? hinner) s e

theorem Shows.call {fuel : Nat} (ih : Shows host frames limit fuel) (h : stack.Above frames limit)
    (s : Scope) (f : String) (args : List Expr) :
    Ends (Halt.Above frames limit) (fun _ => True)
      (host.evalWithin (fuel + 1) stack s (.call f args)) := by
  rw [Host.evalWithin]
  split
  · exact raise_above h (by simp)
  · split
    · exact ih.enter h _ _ _
    · exact raise_above h (by simp)
  · refine (ih.enter h _ _ _).bind fun v _ => ?_
    split
    · split
      · rename_i harity
        have hvalues : Ends (Halt.Above frames limit) (List.Forall₂ (fun _ _ => True) args)
            (evalAll (host.evalWithin fuel stack s) args) :=
          .evalAll (List.forall₂_same.mpr fun a _ => ih h s a)
        refine hvalues.bind fun vs hlen => ?_
        refine .callClosure_push (harity.trans hlen.length_eq)
          (fun _ _ => halt_above h (by simp)) (halt_above_of_full h) ?_
        exact fun inner es hinner _ => ih (h.push? hinner) _ _
      · exact raise_above h (by simp)
    · exact raise_above h (by simp)

theorem shows_all (host : Host) (frames : Backtrace) (limit fuel : Nat) :
    Shows host frames limit fuel := by
  induction fuel with
  | zero => exact fun _ _ _ _ => trivial
  | succ fuel ih =>
    intro stack h s e
    cases e with
    | number x => trivial
    | boolean b => trivial
    | function m ps b => trivial
    | parameter p =>
      rw [Host.evalWithin]
      split
      · trivial
      · exact raise_above h (by simp)
    | symbol n =>
      rw [Host.evalWithin]
      split
      · exact raise_above h (by simp)
      · exact ih.enter h _ _ _
    | binary op l r =>
      rw [Host.evalWithin]
      refine (ih h s l).bind fun left _ => (ih h s r).bind fun right _ => ?_
      exact .settle_apply (fun _ _ => halt_above h (by simp)) fun _ _ => trivial
    | native code =>
      rw [Host.evalWithin]
      have hread : Ends (Halt.Above frames limit)
          (fun vs => vs.length = code.params.length ∧ ∀ v ∈ vs, True)
          (readArguments (host.evalWithin fuel stack) stack s code.params) :=
        .readArguments (fun _ _ _ => halt_above h (by simp)) fun _ _ bound env _ => ih h env bound
      exact hread.bind fun vs _ =>
        .settle_native (fun _ => halt_above h (by simp)) fun _ _ => trivial
    | call f args => exact ih.call h s f args

end Eval

/-- The stack is balanced, and backtraces are exact.  From any stack within its limit, an evaluation comes,
with whatever fuel and whether it fails or not, to its outcome and to the same stack; it has never held
more than the limit, and never been popped when it was empty.  The backtrace of an error is some frames
above those of the stack, at most as many as the limit in all, and just as many if the error is that the
limit was met.  A check leaves its depth counter as it was, from any depth. -/
theorem stack_balanced (host : Host) (s : Scope) (e : Expr) :
    (∀ (fuel : Nat) (frames : Backtrace) (limit : Nat), frames.length ≤ limit →
      (∃ deepest ≤ limit,
        (Eval.Live.evalWithin host fuel s e).outcome ⟨frames, limit, frames.length⟩ =
          some (host.evalWithin fuel ⟨frames, limit - frames.length⟩ s e,
            ⟨frames, limit, deepest⟩)) ∧
      ∀ err, host.evalWithin fuel ⟨frames, limit - frames.length⟩ s e = .error (.error err) →
        (∃ inner, err.backtrace = inner ++ frames) ∧ err.backtrace.length ≤ limit ∧
          ∀ n, err.cause = .recursionLimit n → err.backtrace.length = limit) ∧
    ∀ limit depth fuel, limit ≤ depth + fuel →
      (Typing.Counted.checkWithin limit (fuel + 1) s e).outcome depth =
        some (Typing.checkWithin limit (limit - depth) s e, depth) := by
  refine ⟨fun fuel frames limit hframes => ⟨?_, fun err herr => ?_⟩, fun limit depth fuel hfuel => ?_⟩
  · have hlevel : LiveStack.Level ⟨frames, limit - frames.length⟩ ⟨frames, limit, frames.length⟩ :=
      ⟨rfl, (Nat.add_sub_of_le hframes).symm, hframes⟩
    obtain ⟨final, ⟨hframes', hlimit', hdeepest⟩, hrun⟩ := Eval.Live.balances_all host fuel hlevel s e
    have hlimit : final.limit = limit := hlimit'.trans (Nat.add_sub_of_le hframes)
    have hfinal : final = ⟨frames, limit, final.deepest⟩ := LiveStack.ext hframes' hlimit rfl
    refine ⟨final.deepest, hlimit ▸ hdeepest, ?_⟩
    rw [hrun, ← hfinal]
  · have habove : CallStack.Above frames limit ⟨frames, limit - frames.length⟩ :=
      ⟨⟨[], rfl⟩, Nat.add_sub_of_le hframes⟩
    have hends := Eval.shows_all host frames limit fuel habove s e
    rw [herr] at hends
    exact hends
  · obtain ⟨_, rfl, hrun⟩ := Typing.Counted.checkWithin_keeps hfuel s e
    exact hrun

/-- The binding of a name to itself fills a stack that holds a frame from before, with room for two more,
and leaves it as it was. -/
theorem stack_balanced_full :
    let s := Scope.ofTable (.ofList [("x", .symbol "x")])
    let before : Backtrace := [.call "f"]
    let after : Backtrace := [.symbol "x", .symbol "x", .call "f"]
    Prelude.host.evalWithin 9 ⟨before, 2⟩ s (.symbol "x") = .error (.error ⟨.recursionLimit 3, after⟩) ∧
      (∃ deepest ≤ 3, (Eval.Live.evalWithin Prelude.host 9 s (.symbol "x")).outcome ⟨before, 3, 1⟩ =
        some (.error (.error ⟨.recursionLimit 3, after⟩), ⟨before, 3, deepest⟩)) ∧
      after.length = 3 ∧
      (Typing.Counted.checkWithin 4 4 s (.symbol "x")).outcome 1 =
        some (.error (.recursionLimit 4), 1) := by
  intro s before after
  have hrun : Prelude.host.evalWithin 9 ⟨before, 2⟩ s (.symbol "x") =
      .error (.error ⟨.recursionLimit 3, after⟩) := rfl
  have hcheck : Typing.checkWithin 4 3 s (.symbol "x") = .error (.recursionLimit 4) := rfl
  obtain ⟨hall, hcounted⟩ := stack_balanced Prelude.host s (.symbol "x")
  obtain ⟨hlive, hshown⟩ := hall 9 before 3 (by decide)
  obtain ⟨deepest, hdeepest, hlive⟩ := hlive
  obtain ⟨-, -, hfull⟩ := hshown _ hrun
  refine ⟨hrun, ⟨deepest, hdeepest, ?_⟩, hfull 3 rfl, ?_⟩
  · rw [← hrun]
    exact hlive
  · rw [← hcheck]
    exact hcounted 4 1 3 (by decide)

end Reckoner
