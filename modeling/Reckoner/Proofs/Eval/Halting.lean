import Mathlib
import Reckoner.Proofs.Eval.Termination
import Reckoner.Proofs.Session.Reachable

/-! # Every evaluation ends

Where host code stands only as the body of a function, the limit of the stack ends every evaluation,
of checked expressions and others, also where bindings refer back to themselves.  Fuel is then no
more than a way to define evaluation: from some amount on it has no part in the outcome, so that
outcomes with different fuel can be compared.

What is asked of the host for it is that host code is in its place in the closures that it gives as
well: a closure whose body is host code that reads itself comes to no end.  If these closures are no
larger than the expressions at hand, the fuel that is needed is known beforehand.
-/
namespace Reckoner

theorem Table.WellFormed.placed {t : Table} (h : t.WellFormed) : (Scope.ofTable t).Placed :=
  Scope.forall_ofTable fun n e he => (h n e he).placed

namespace Eval

variable {host : Host} {limit fuel : Nat} {s : Scope} {e : Expr}

theorem evalWithin_eq_of_le {fuel' : Nat} {stack : CallStack} (hle : fuel ≤ fuel')
    (h : host.evalWithin fuel stack s e ≠ .error .exhausted) :
    host.evalWithin fuel' stack s e = host.evalWithin fuel stack s e := by
  have hmono : Follows (Eq .exhausted) Eq (host.evalWithin fuel stack s e)
      (host.evalWithin fuel' stack s e) := evalWithin_mono rfl hle (.refl _ stack) s e
  refine hmono.eq fun halt hhalt heq => h ?_
  rw [hhalt, ← heq]

/-- Any fuel that gives an outcome gives that of the evaluation. -/
theorem eval_eq_evalWithin (hhost : host.Keeps (Value.Bounded (s.size + e.size))) (hs : s.Placed)
    (he : e.Placed) (h : host.evalWithin fuel (.ofLimit limit) s e ≠ .error .exhausted) :
    host.eval limit s e = host.evalWithin fuel (.ofLimit limit) s e := by
  rcases Nat.le_total fuel (budget limit (s.size + e.size + 1)) with hle | hle
  · exact evalWithin_eq_of_le hle h
  · exact (evalWithin_eq_of_le hle (eval_ne_exhausted limit hhost hs he)).symm

theorem eval_eq_ok_of_evalWithin (hhost : host.Bounded) (hs : s.Placed) (he : e.Placed) {v : Value}
    (h : host.evalWithin fuel (.ofLimit limit) s e = .ok v) : host.eval limit s e = .ok v := by
  have houtcome : host.evalWithin fuel (.ofLimit limit) s e ≠ .error .exhausted := by simp [h]
  rw [eval_eq_evalWithin (hhost _) hs he houtcome, h]

/-- A value that an evaluation gives is the value that it gives with any higher limit. -/
theorem eval_eq_ok_of_le (hhost : host.Bounded) (hs : s.Placed) (he : e.Placed) {limit' : Nat}
    (hle : limit ≤ limit') {v : Value} (h : host.eval limit s e = .ok v) :
    host.eval limit' s e = .ok v := by
  have hstack : (CallStack.ofLimit limit).Abreast (fun _ => True) (.ofLimit limit') :=
    .of_room_le (fun _ => trivial) hle
  have hmono : Follows (fun _ => True) Eq (host.eval limit s e)
      (host.evalWithin _ (.ofLimit limit') s e) :=
    evalWithin_mono trivial (Nat.le_refl _) hstack s e
  rw [h] at hmono
  obtain ⟨w, hw, rfl⟩ := hmono
  exact eval_eq_ok_of_evalWithin hhost hs he hw

/-- Host code that reads itself comes to no end. -/
theorem evalWithin_reads_itself {code : NativeCode} {n : String} {names : List String}
    (hcode : code.params = n :: names) (hn : s.resolve? n = some (.native code, s)) (fuel : Nat)
    (stack : CallStack) : host.evalWithin fuel stack s (.native code) = .error .exhausted := by
  induction fuel with
  | zero => rfl
  | succ fuel ih =>
    rw [Host.evalWithin, hcode, readArguments, hn]
    dsimp only
    rw [ih]
    rfl

end Eval

/-- The host whose functions give a closure of their own, which has host code that reads itself as its
body. -/
def Host.fabricates : Host where
  run f _ :=
    let again := Expr.native ⟨"again", .number, ["again"], f⟩
    .ok (.function ⟨0, [], again, .ofTable (.ofList [("again", again)])⟩)

/-- Without what is asked of the host the limit of the stack does not end an evaluation, though host code
is in its place wherever a program has it. -/
theorem Host.evalWithin_fabricates (room fuel : Nat) :
    let make := Expr.nativeFunction "make" [] .number ⟨"make"⟩
    let s := Scope.ofTable (.ofList [("make", make), ("f", .call "make" [])])
    s.Placed ∧ fabricates.evalWithin fuel ⟨[], room + 2⟩ s (.call "f" []) = .error .exhausted := by
  intro make s
  have hmake : make.Placed := .native _ _ _
  have hcall : (Expr.call "make" []).Placed := .call _ (by simp)
  constructor
  · exact Scope.forall_ofTable
      (Table.forall_ofList (List.forall_mem_cons.mpr ⟨hmake, List.forall_mem_singleton.mpr hcall⟩))
  · match fuel with
    | 0 => rfl
    | 1 => rfl
    | 2 => rfl
    | fuel + 3 =>
      -- The closure is found and called, and its body has what is left of the fuel.
      exact Eval.evalWithin_reads_itself rfl rfl (fuel + 2) ⟨[.call "f"], room + 1⟩

end Reckoner
