import Mathlib
import Reckoner.Proofs.Eval.Ends
import Reckoner.Proofs.Eval.Host
import Reckoner.Proofs.Expr.WellFormed
import Reckoner.Proofs.Scope.Lookup

/-! # What it means to have a type

An expression yields a type in a scope if its evaluation goes wrong in none of the ways that a check
rules out, and gives a value that belongs to the type.  A closure belongs to a function type if its
body yields the result type for all literals of the parameter types, so the definition goes along
the type.  A number of frames is part of the notion: on a stack with room for that many frames an
evaluation does not reach the limit.  One lemma for each kind of expression says when it yields a
type.
-/
namespace Reckoner.Eval

/-- What the evaluation of a checked expression may stop with, on a stack with some room.  The room
may be too small only if it is below `bound`. -/
inductive Tolerated (bound room : Nat) : Halt → Prop where
  | exhausted : Tolerated bound room .exhausted
  | incompatible (a b : Ty.Shape) (frames : Backtrace) :
      Tolerated bound room (.error ⟨.incompatible a b, frames⟩)
  | native (name message : String) (frames : Backtrace) :
      Tolerated bound room (.error ⟨.native name message, frames⟩)
  | recursionLimit (limit : Nat) (frames : Backtrace) (h : room < bound) :
      Tolerated bound room (.error ⟨.recursionLimit limit, frames⟩)

theorem Tolerated.imp {bound room bound' room' : Nat} (himp : room < bound → room' < bound')
    {halt : Halt} (h : Tolerated bound room halt) : Tolerated bound' room' halt := by
  cases h with
  | exhausted => exact .exhausted
  | incompatible a b frames => exact .incompatible a b frames
  | native name message frames => exact .native name message frames
  | recursionLimit limit frames h => exact .recursionLimit limit frames (himp h)

/-- The values of a type.  A comparison has the type of its operands, so a boolean also counts as a
number. -/
def Belongs (bound : Nat) : Ty → Value → Prop
  | .number, v => (∃ x, v = .number x) ∨ ∃ b, v = .boolean b
  | .boolean, v => ∃ b, v = .boolean b
  | .function params result, v => ∃ c, v = .function c ∧ c.params.map (·.ty) = params ∧
      ∀ es, List.Forall₂ (fun p e => Expr.LiteralOf p.ty e) c.params es →
        ∀ (fuel : Nat) (stack : CallStack), Ends (Tolerated bound stack.room)
          (Belongs bound result)
          (Prelude.host.evalWithin fuel stack (c.scope.activate c.params es) c.body)

/-- The evaluation of an expression gives a value of a type, or stops with what is tolerated. -/
def Yields (bound : Nat) (ty : Ty) (s : Scope) (e : Expr) : Prop :=
  ∀ (fuel : Nat) (stack : CallStack),
    Ends (Tolerated bound stack.room) (Belongs bound ty) (Prelude.host.evalWithin fuel stack s e)

theorem Belongs.mono {bound bound' : Nat} (hle : bound ≤ bound') {ty : Ty} {v : Value}
    (h : Belongs bound ty v) : Belongs bound' ty v := by
  match ty with
  | .number => exact h
  | .boolean => exact h
  | .function params result =>
    obtain ⟨c, rfl, hparams, hbody⟩ := h
    refine ⟨c, rfl, hparams, fun es hes fuel stack => ?_⟩
    exact (hbody es hes fuel stack).mono (fun _ => Tolerated.imp fun h => by omega)
      fun _ => Belongs.mono hle

namespace Yields

variable {bound : Nat} {ty : Ty} {s : Scope} {e : Expr}

theorem mono {bound' : Nat} (h : Yields bound ty s e) (hle : bound ≤ bound') :
    Yields bound' ty s e := fun fuel stack =>
  (h fuel stack).mono (fun _ => Tolerated.imp fun h => by omega) fun _ => Belongs.mono hle

/-- It is enough to look at evaluations that have fuel for a first step. -/
theorem of_step (h : ∀ (fuel : Nat) (stack : CallStack), Ends (Tolerated bound stack.room)
    (Belongs bound ty) (Prelude.host.evalWithin (fuel + 1) stack s e)) : Yields bound ty s e := by
  intro fuel stack
  cases fuel with
  | zero => exact .exhausted
  | succ fuel => exact h fuel stack

theorem literal (h : e.LiteralOf ty) : Yields bound ty s e := by
  refine of_step fun fuel stack => ?_
  cases h with
  | number x => exact .inl ⟨x, rfl⟩
  | boolean b => exact ⟨b, rfl⟩

/-- What is evaluated with one more frame on the stack needs room for one frame more. -/
theorem enter {stack : CallStack} {frame : StackFrame} (h : Yields bound ty s e) (fuel : Nat) :
    Ends (Tolerated (bound + 1) stack.room) (Belongs bound ty)
      (enter stack frame fun stack => Prelude.host.evalWithin fuel stack s e) := by
  apply Ends.enter
  · intro hfull
    exact .recursionLimit _ _ (by omega)
  · intro inner hinner
    exact (h fuel inner).mono (fun _ => Tolerated.imp fun h => by omega) fun _ h => h

theorem symbol {n : String} {env : Scope} (hn : s.resolve? n = some (e, env))
    (h : Yields bound ty env e) : Yields (bound + 1) ty s (.symbol n) := by
  refine of_step fun fuel stack => ?_
  rw [Host.evalWithin, hn]
  exact (h.enter fuel).mono (fun _ h => h) fun _ => Belongs.mono (Nat.le_succ _)

theorem binary {op : Operator} {l r : Expr} {left right : Ty} (hl : Yields bound left s l)
    (hr : Yields bound right s r) (hop : Ty.compatibleFor op.category left right = true) :
    Yields bound (Ty.combine left right) s (.binary op l r) := by
  refine of_step fun fuel stack => ?_
  rw [Host.evalWithin]
  refine (hl fuel stack).bind fun v hv => ?_
  refine (hr fuel stack).bind fun w hw => ?_
  refine Ends.settle_apply (fun a b => .incompatible a b _) fun result hresult => ?_
  obtain ⟨rfl, rfl | rfl⟩ := Ty.compatible_iff.mp (Ty.compatible_of_compatibleFor hop)
  · exact Operator.simple_of_apply hresult
  · -- Two booleans can only be tested for equality, which gives a boolean again.
    obtain ⟨a, rfl⟩ := hv
    obtain ⟨b, rfl⟩ := hw
    cases op <;> cases hresult <;> exact ⟨_, rfl⟩

theorem function {m : Nat} {ps : List Parameter} {b : Expr} {result : Ty}
    (h : ∀ es, List.Forall₂ (fun p e => Expr.LiteralOf p.ty e) ps es →
      Yields bound result (s.activate ps es) b) :
    Yields bound (.function (ps.map (·.ty)) result) s (.function m ps b) := by
  refine of_step fun fuel stack => ?_
  exact ⟨⟨m, ps, b, s⟩, rfl, rfl, h⟩

/-- A call of a function literal has its body evaluated with the arguments as they are written. -/
theorem callLiteral {f : String} {m : Nat} {ps : List Parameter} {b : Expr} {env : Scope}
    {args : List Expr} (hf : s.resolve? f = some (.function m ps b, env))
    (hlen : ps.length = args.length) (h : Yields bound ty (s.activate ps args) b) :
    Yields (bound + 1) ty s (.call f args) := by
  refine of_step fun fuel stack => ?_
  rw [Host.evalWithin, hf]
  dsimp only
  rw [if_pos hlen]
  exact (h.enter fuel).mono (fun _ h => h) fun _ => Belongs.mono (Nat.le_succ _)

/-- A call of anything else evaluates that to a closure and calls it with values. -/
theorem callClosure {f : String} {d : Expr} {env : Scope} {params : List Ty} {args : List Expr}
    (hf : s.resolve? f = some (d, env)) (hd : ∀ m ps b, d ≠ .function m ps b)
    (h : Yields bound (.function params ty) env d)
    (hargs : List.Forall₂ (fun p a => Yields bound p s a) params args) :
    Yields (bound + 1) ty s (.call f args) := by
  refine of_step fun fuel stack => ?_
  rw [Host.evalWithin, hf]
  split
  · rename_i heq
    cases heq
  · rename_i heq
    cases heq
    exact absurd rfl (hd _ _ _)
  · rename_i heq
    cases heq
    refine (h.enter fuel).bind fun v hv => ?_
    obtain ⟨c, rfl, hparams, hbody⟩ := hv
    have harity : c.arity = args.length := by
      rw [← hargs.length_eq, ← hparams, List.length_map, Closure.arity]
    dsimp only
    rw [if_pos harity]
    have hvalues : Ends (Tolerated (bound + 1) stack.room) (List.Forall₂ (Belongs bound) params)
        (evalAll (Prelude.host.evalWithin fuel stack s) args) := by
      apply Ends.evalAll
      refine hargs.imp fun p a ha => ?_
      exact (ha fuel stack).mono (fun _ => Tolerated.imp fun h => by omega) fun _ h => h
    refine hvalues.bind fun values hlen => ?_
    apply Ends.callClosure
    · rw [harity, ← hargs.length_eq, hlen.length_eq]
    · exact fun a b => .incompatible a b _
    · intro hfull
      exact .recursionLimit _ _ (by omega)
    · intro inner es hinner hes
      exact (hbody es hes fuel inner).mono (fun _ => Tolerated.imp fun h => by omega)
        fun _ => Belongs.mono (Nat.le_succ _)

/-- Host code that is the body of a function reads the arguments of the call. -/
theorem native {ps : List Parameter} {args : List Expr} {code : NativeCode}
    (hcode : code.Fits ps) (hs : s ≠ [])
    (hargs : List.Forall₂ (fun p a => Yields bound p.ty s a) ps args) :
    Yields bound .number (s.activate ps args) (.native code) := by
  refine of_step fun fuel stack => ?_
  rw [Host.evalWithin]
  have hvalues : Ends (Tolerated bound stack.room)
      (fun vs => vs.length = code.params.length ∧ ∀ v ∈ vs, Belongs bound .number v)
      (readArguments (Prelude.host.evalWithin fuel stack) stack (s.activate ps args) code.params) := by
    apply Ends.readArguments
    · intro n hn hnone
      obtain ⟨_, _, -, -, hread⟩ := hcode.resolve? hs hargs hn
      rw [hread] at hnone
      cases hnone
    · intro n hn d env hd
      obtain ⟨p, a, hp, ha, hread⟩ := hcode.resolve? hs hargs hn
      rw [hread] at hd
      cases hd
      exact hp ▸ ha fuel stack
  refine hvalues.bind fun vs _ => ?_
  exact Ends.settle_native (fun message => .native _ message _) fun v hv =>
    .inl (Prelude.number_of_run hv)

end Yields

end Reckoner.Eval
