import Mathlib
import Reckoner.Proofs.Eval.Halting
import Reckoner.Proofs.Typing.Substitution

/-! # Limits only cut off

The limit of the stack is looked at only where a frame is pushed, and the limit of a check only where
the check goes one level further in.  What is not cut off there goes the same way with any higher limit,
to the same value or to the same error with the same backtrace; and an evaluation that never comes to an
end goes on for ever with a higher limit as well.
-/
namespace Reckoner

inductive Halt.AtLimit : Halt → Prop where
  | intro (limit : Nat) (frames : Backtrace) : AtLimit (.error ⟨.recursionLimit limit, frames⟩)

namespace Eval

def HitsLimit (x : Result) : Prop :=
  ∃ halt : Halt, halt.AtLimit ∧ x = .error halt

variable {host : Host} {fuel limit limit' : Nat} {stack stack' : CallStack} {s : Scope} {e : Expr}

theorem finds_refl (excused : Halt → Prop) (x : Option (Expr × Scope)) :
    Scope.Finds excused (fun env e env' e' => env' = env ∧ e' = e) x x :=
  .refl (fun _ _ => ⟨rfl, rfl⟩) x

/-- With the same fuel, and more room on the second stack, the evaluations differ only where the first
one is cut off. -/
theorem evalWithin_follows_of_abreast (hstack : stack.Abreast Halt.AtLimit stack') (s : Scope)
    (e : Expr) :
    Follows Halt.AtLimit (Value.Alike Eq) (host.evalWithin fuel stack s e)
      (host.evalWithin fuel stack' s e) := by
  induction fuel generalizing stack stack' s e with
  | zero => exact .error _
  | succ fuel ih =>
    cases e with
    | number x => exact .ok (.number x)
    | boolean b => exact .ok (.boolean b)
    | function m ps b => exact .ok (.function rfl)
    | parameter p =>
      rw [Host.evalWithin, Host.evalWithin]
      split
      · exact .ok (.refl (fun _ => rfl) _)
      · exact .raise hstack _
    | symbol n =>
      rw [Host.evalWithin, Host.evalWithin]
      split
      · exact .raise hstack _
      · exact .enter hstack _ fun _ _ hinner => ih hinner _ _
    | binary op l r =>
      rw [Host.evalWithin, Host.evalWithin]
      refine (ih hstack s l).bind fun v v' hv => ?_
      refine (ih hstack s r).bind fun w w' hw => ?_
      exact .settle hstack (hv.follows_apply op hw)
    | call f args =>
      rw [Host.evalWithin, Host.evalWithin]
      split
      · exact .raise hstack _
      · split
        · exact .enter hstack _ fun _ _ hinner => ih hinner _ _
        · exact .raise hstack _
      · refine Follows.bind (.enter hstack _ fun _ _ hinner => ih hinner _ _) fun v v' hv => ?_
        cases hv with
        | number x => exact .raise hstack _
        | boolean b => exact .raise hstack _
        | @function c _ hc =>
          subst hc
          dsimp only
          split
          · have hvalues : Follows Halt.AtLimit (List.Forall₂ (Value.Alike Eq))
                (evalAll (host.evalWithin fuel stack s) args)
                (evalAll (host.evalWithin fuel stack' s) args) :=
              .evalAll (List.forall₂_same.mpr fun a _ => ih hstack s a)
            refine hvalues.bind fun vs vs' hvs => ?_
            exact .callClosure hstack f rfl hvs fun _ _ _ hinner _ => ih hinner _ _
          · exact .raise hstack _
    | native code =>
      rw [Host.evalWithin, Host.evalWithin]
      have hvalues : Follows Halt.AtLimit (List.Forall₂ (Value.Alike Eq))
          (readArguments (host.evalWithin fuel stack) stack s code.params)
          (readArguments (host.evalWithin fuel stack') stack' s code.params) := by
        refine .readArguments hstack ?_ fun n _ => finds_refl _ _
        rintro env d _ _ ⟨rfl, rfl⟩
        exact ih hstack _ _
      exact hvalues.bind fun vs vs' hvs =>
        .settle hstack ((host.respects_eq code.host vs vs' hvs).mapError _)

/-- With the same fuel, an evaluation that is not cut off has the same outcome with a higher limit,
if it has one. -/
theorem evalWithin_of_limit_le (hle : limit ≤ limit')
    (h : ¬ HitsLimit (host.evalWithin fuel (.ofLimit limit) s e)) :
    host.evalWithin fuel (.ofLimit limit') s e = host.evalWithin fuel (.ofLimit limit) s e := by
  have hstack : (CallStack.ofLimit limit).Abreast Halt.AtLimit (.ofLimit limit') :=
    ⟨hle, .inl rfl, .inr .intro⟩
  have hfollows : Follows Halt.AtLimit Eq (host.evalWithin fuel (.ofLimit limit) s e)
      (host.evalWithin fuel (.ofLimit limit') s e) :=
    (evalWithin_follows_of_abreast hstack s e).imp fun v v' hv =>
      (hv.eq fun _ _ hc => hc.symm).symm
  exact hfollows.eq fun halt hhalt hlimit => h ⟨halt, hlimit, hhalt⟩

theorem budget_mono (hle : limit ≤ limit') (weight : Nat) :
    budget limit weight ≤ budget limit' weight := by
  unfold budget
  gcongr

/-- An evaluation that is not cut off has the same outcome with a higher limit. -/
theorem eval_of_limit_le (hle : limit ≤ limit') (h : ¬ HitsLimit (host.eval limit s e))
    (hends : host.eval limit s e ≠ .error .exhausted) :
    host.eval limit' s e = host.eval limit s e := by
  have hlimit : host.evalWithin _ (.ofLimit limit') s e = host.eval limit s e :=
    evalWithin_of_limit_le hle h
  rw [← hlimit]
  exact evalWithin_eq_of_le (budget_mono hle _) (hlimit.trans_ne hends)

end Eval

/-- A check that is not cut off gives the same type or the same error with a higher limit. -/
theorem Typing.check_of_limit_le {limit limit' : Nat} (hle : limit ≤ limit') {s : Scope} {e : Expr}
    (h : ∀ n, check limit s e ≠ .error (.recursionLimit n)) :
    check limit' s e = check limit s e := by
  have hfollows : Follows TypeError.IsLimit Eq (check limit s e) (check limit' s e) :=
    checkWithin_follows hle (.refl _ "" (.number 0) e)
  refine hfollows.eq fun err herr hlimit => ?_
  obtain ⟨n, rfl⟩ := hlimit
  exact h n herr

/-- The limits only ever cut off.  Where an evaluation does not stop at its limit, it goes the same way
with any higher limit: it comes to the same value or the same error with the same backtrace, or to
neither, with whatever fuel.  So it does with the fuel that evaluations get, which suffices where host
code stands only as the body of functions and the host makes no larger closures.  And a check that does
not stop at its limit gives the same type or the same error with any higher one. -/
theorem outcome_of_limit_le (host : Host) {limit limit' : Nat} (hle : limit ≤ limit') (s : Scope)
    (e : Expr) :
    (∀ fuel, ¬ Eval.HitsLimit (host.evalWithin fuel (.ofLimit limit) s e) →
        host.evalWithin fuel (.ofLimit limit') s e = host.evalWithin fuel (.ofLimit limit) s e) ∧
      (¬ Eval.HitsLimit (host.eval limit s e) →
        host.eval limit s e ≠ .error .exhausted ∨ host.Bounded ∧ s.Placed ∧ e.Placed →
          host.eval limit' s e = host.eval limit s e) ∧
      ((∀ n, Typing.check limit s e ≠ .error (.recursionLimit n)) →
        Typing.check limit' s e = Typing.check limit s e) := by
  refine ⟨fun fuel => Eval.evalWithin_of_limit_le hle, fun h hends => ?_,
    Typing.check_of_limit_le hle⟩
  apply Eval.eval_of_limit_le hle h
  rcases hends with hends | ⟨hhost, hs, he⟩
  · exact hends
  · exact Eval.eval_ne_exhausted limit (hhost _) hs he

/-- An evaluation with a stack of two frames that fails inside a call, and a check with five levels
that fails at an argument. -/
theorem outcome_of_limit_le_failure :
    let t := Table.ofList
      [("next", .function 0 [⟨"x", .number⟩] (.binary .add (.symbol "x") (.number 1.0)))]
    let e := Expr.call "next" [.boolean true]
    Eval.eval 9 (.ofTable t) e =
        .error (.error ⟨.incompatible .boolean .number, [.call "next"]⟩) ∧
      Typing.check 9 (.ofTable t) e = .error (.incompatible .number .boolean) := by
  intro t e
  have heval : Prelude.host.eval 2 (.ofTable t) e =
      .error (.error ⟨.incompatible .boolean .number, [.call "next"]⟩) := rfl
  have hcheck : Typing.check 5 (.ofTable t) e = .error (.incompatible .number .boolean) := by
    decide +kernel
  have hlimit : ¬ Eval.HitsLimit (Prelude.host.eval 2 (.ofTable t) e) := by
    rintro ⟨_, ⟨limit, frames⟩, h⟩
    rw [heval] at h
    cases h
  obtain ⟨-, hsame, -⟩ := outcome_of_limit_le Prelude.host (show 2 ≤ 9 by decide) (.ofTable t) e
  obtain ⟨-, -, hchecks⟩ := outcome_of_limit_le Prelude.host (show 5 ≤ 9 by decide) (.ofTable t) e
  refine ⟨(hsame hlimit (.inl ?_)).trans heval, (hchecks ?_).trans hcheck⟩
  · rw [heval]
    simp
  · intro n
    rw [hcheck]
    simp

end Reckoner
