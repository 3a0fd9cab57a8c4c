import Mathlib
import Reckoner.Eval.Basic

/-! # How evaluations end

An evaluation gives a value or stops.  `Ends halts gives` says which values it may give and what it
may stop with; the parts that the evaluator is put together from have one rule each, so that a
property of all evaluations is shown without opening these parts again.
-/
namespace Reckoner

/-- The literals of a type. -/
inductive Expr.LiteralOf : Ty → Expr → Prop where
  | number (x : Float) : LiteralOf .number (.number x)
  | boolean (b : Bool) : LiteralOf .boolean (.boolean b)

theorem Expr.exists_literalOf_of_mem {ps : List Parameter} {es : List Expr}
    (h : List.Forall₂ (fun p e => LiteralOf p.ty e) ps es) {e : Expr} (he : e ∈ es) :
    ∃ ty, e.LiteralOf ty := by
  induction h with
  | nil => cases he
  | @cons p d ps es hd _ ih =>
    rcases List.mem_cons.mp he with rfl | he
    · exact ⟨p.ty, hd⟩
    · exact ih he

/-- A value of a declared type has a literal of that type. -/
theorem Value.literalOf {v : Value} {e : Expr} {ty : Ty} (he : v.literal? = some e)
    (hty : v.simpleType? = some ty) : e.LiteralOf ty := by
  cases v with
  | number x => cases he; cases hty; exact .number x
  | boolean b => cases he; cases hty; exact .boolean b
  | function c => cases he

theorem Value.exists_literalOf {v : Value} {ty : Ty} (h : v.simpleType? = some ty) :
    ∃ e, v.literal? = some e ∧ e.LiteralOf ty := by
  cases v with
  | number x => cases h; exact ⟨_, rfl, .number x⟩
  | boolean b => cases h; exact ⟨_, rfl, .boolean b⟩
  | function c => cases h

/-- An operator gives a number or a boolean. -/
theorem Operator.simple_of_apply {op : Operator} {left right v : Value}
    (h : op.apply left right = .ok v) : (∃ x, v = .number x) ∨ ∃ b, v = .boolean b := by
  simp only [Operator.apply] at h
  split at h
  · cases h
    cases op <;> simp [applyNumbers]
  · cases h
    exact .inr ⟨_, rfl⟩
  · cases h
    exact .inr ⟨_, rfl⟩
  · cases h

/-- The room that a stack has left after one more frame. -/
theorem CallStack.room_of_push? {s t : CallStack} {f : StackFrame} (h : s.push? f = some t) :
    t.room + 1 = s.room := by
  obtain ⟨frames, room⟩ := s
  cases room with
  | zero => cases h
  | succ room => cases h; rfl

theorem CallStack.frames_of_push? {s t : CallStack} {f : StackFrame} (h : s.push? f = some t) :
    t.frames = f :: s.frames := by
  obtain ⟨frames, room⟩ := s
  cases room with
  | zero => cases h
  | succ room => cases h; rfl

namespace Eval

variable {α β : Type} {halts : Halt → Prop}

/-- A computation stops as `halts` allows or gives something as `gives` says. -/
def Ends (halts : Halt → Prop) (gives : α → Prop) : Except Halt α → Prop
  | .ok a => gives a
  | .error h => halts h

@[simp] theorem ends_ok {gives : α → Prop} {a : α} : Ends halts gives (.ok a) ↔ gives a := Iff.rfl

namespace Ends

theorem mono {halts' : Halt → Prop} {gives gives' : α → Prop} {x : Except Halt α}
    (h : Ends halts gives x) (hhalts : ∀ h, halts h → halts' h)
    (hgives : ∀ a, gives a → gives' a) : Ends halts' gives' x := by
  cases x with
  | ok a => exact hgives a h
  | error e => exact hhalts e h

theorem bind {gives : α → Prop} {gives' : β → Prop} {x : Except Halt α} {f : α → Except Halt β}
    (hx : Ends halts gives x) (hf : ∀ a, gives a → Ends halts gives' (f a)) :
    Ends halts gives' (x >>= f) := by
  cases x with
  | ok a => exact hf a hx
  | error e => exact hx

theorem raise {gives : α → Prop} {stack : CallStack} {cause : EvalError.Cause}
    (h : halts (.error ⟨cause, stack.frames⟩)) : Ends halts gives (raise stack cause) := h

variable {stack : CallStack} {gives : Value → Prop}

/-- One more frame is refused only by a stack without room. -/
theorem enter_push {frame : StackFrame} {run : CallStack → Result}
    (hfull : stack.room = 0 → halts (.error ⟨.recursionLimit stack.limit, stack.frames⟩))
    (hrun : ∀ inner, stack.push? frame = some inner → Ends halts gives (run inner)) :
    Ends halts gives (enter stack frame run) := by
  simp only [Eval.enter]
  split
  · rename_i hnone
    have hdepth := CallStack.push?_eq_none_iff.mp hnone
    apply hfull
    simp only [CallStack.depth, CallStack.limit] at hdepth
    omega
  · rename_i inner hsome
    exact hrun inner hsome

theorem enter {frame : StackFrame} {run : CallStack → Result}
    (hfull : stack.room = 0 → halts (.error ⟨.recursionLimit stack.limit, stack.frames⟩))
    (hrun : ∀ inner : CallStack, inner.room + 1 = stack.room → Ends halts gives (run inner)) :
    Ends halts gives (enter stack frame run) :=
  enter_push hfull fun inner hinner => hrun inner (CallStack.room_of_push? hinner)

/-- An operator gives a value or finds its operands incompatible. -/
theorem settle_apply {op : Operator} {left right : Value}
    (hhalts : ∀ a b, halts (.error ⟨.incompatible a b, stack.frames⟩))
    (hgives : ∀ v, op.apply left right = .ok v → gives v) :
    Ends halts gives (settle stack (op.apply left right)) := by
  cases h : op.apply left right with
  | ok v => exact hgives v h
  | error cause =>
    have hcause : ∃ a b, cause = .incompatible a b := by
      simp only [Operator.apply] at h
      split at h <;> cases h
      exact ⟨_, _, rfl⟩
    obtain ⟨a, b, rfl⟩ := hcause
    exact hhalts a b

/-- Host code gives what the host has for it or fails by itself. -/
theorem settle_native {host : Host} {code : NativeCode} {args : List Value}
    (hhalts : ∀ message, halts (.error ⟨.native code.name message, stack.frames⟩))
    (hgives : ∀ v, host.run code.host args = .ok v → gives v) :
    Ends halts gives (settle stack ((host.run code.host args).mapError (.native code.name))) := by
  cases h : host.run code.host args with
  | error message => exact hhalts message
  | ok v => exact hgives v h

/-- If each expression of a list gives what its tag asks for, so does the list. -/
theorem evalAll {gives : β → Value → Prop} {run : Expr → Result} {tags : List β} {es : List Expr}
    (h : List.Forall₂ (fun tag e => Ends halts (gives tag) (run e)) tags es) :
    Ends halts (List.Forall₂ gives tags) (evalAll run es) := by
  induction h with
  | nil => exact .nil
  | cons he _ ih =>
    refine he.bind fun v hv => ?_
    refine ih.bind fun vs hvs => ?_
    exact .cons hv hvs

/-- Values of the declared types have literals, and others are incompatible. -/
theorem literals {ps : List Parameter} {vs : List Value} (hlen : ps.length = vs.length)
    (hhalts : ∀ a b, halts (.error ⟨.incompatible a b, stack.frames⟩)) :
    Ends halts (List.Forall₂ (fun p e => Expr.LiteralOf p.ty e) ps) (literals stack ps vs) := by
  induction ps generalizing vs with
  | nil =>
    cases vs with
    | nil => exact .nil
    | cons v vs => cases hlen
  | cons p ps ih =>
    cases vs with
    | nil => cases hlen
    | cons v vs =>
      simp only [Eval.literals]
      split
      · rename_i e he
        split
        · rename_i hty
          refine (ih (Nat.succ.inj hlen)).bind fun es hes => ?_
          exact .cons (Value.literalOf he hty) hes
        · exact hhalts _ _
      · exact hhalts _ _

/-- Values of the declared types have literals. -/
theorem literals_of_types {ps : List Parameter} {vs : List Value}
    (h : List.Forall₂ (fun p v => v.simpleType? = some p.ty) ps vs) :
    Ends halts (List.Forall₂ (fun p e => Expr.LiteralOf p.ty e) ps)
      (Eval.literals stack ps vs) := by
  induction h with
  | nil => exact .nil
  | @cons p v ps vs hv _ ih =>
    obtain ⟨e, he, hliteral⟩ := Value.exists_literalOf hv
    simp only [Eval.literals, he, if_pos hv]
    refine ih.bind fun es hes => ?_
    exact .cons hliteral hes

/-- A closure called with as many values as it takes has its body evaluated with literals. -/
theorem callClosure_push {run : CallStack → Scope → Expr → Result} {name : String} {c : Closure}
    {args : List Value} (harity : c.arity = args.length)
    (hhalts : ∀ a b, halts (.error ⟨.incompatible a b, stack.frames⟩))
    (hfull : stack.room = 0 → halts (.error ⟨.recursionLimit stack.limit, stack.frames⟩))
    (hrun : ∀ (inner : CallStack) (es : List Expr), stack.push? (.call name) = some inner →
      List.Forall₂ (fun p e => Expr.LiteralOf p.ty e) c.params es →
        Ends halts gives (run inner (c.scope.activate c.params es) c.body)) :
    Ends halts gives (callClosure run stack name c args) := by
  simp only [Eval.callClosure]
  rw [if_pos harity]
  refine (literals harity hhalts).bind fun es hes => ?_
  exact enter_push hfull fun inner hinner => hrun inner es hinner hes

theorem callClosure {run : CallStack → Scope → Expr → Result} {name : String} {c : Closure}
    {args : List Value} (harity : c.arity = args.length)
    (hhalts : ∀ a b, halts (.error ⟨.incompatible a b, stack.frames⟩))
    (hfull : stack.room = 0 → halts (.error ⟨.recursionLimit stack.limit, stack.frames⟩))
    (hrun : ∀ (inner : CallStack) (es : List Expr), inner.room + 1 = stack.room →
      List.Forall₂ (fun p e => Expr.LiteralOf p.ty e) c.params es →
        Ends halts gives (run inner (c.scope.activate c.params es) c.body)) :
    Ends halts gives (callClosure run stack name c args) :=
  callClosure_push harity hhalts hfull fun inner es hinner hes =>
    hrun inner es (CallStack.room_of_push? hinner) hes

/-- A closure called with values of the declared types finds nothing incompatible. -/
theorem callClosure_of_types {run : CallStack → Scope → Expr → Result} {name : String} {c : Closure}
    {args : List Value}
    (htypes : List.Forall₂ (fun p v => v.simpleType? = some p.ty) c.params args)
    (hfull : stack.room = 0 → halts (.error ⟨.recursionLimit stack.limit, stack.frames⟩))
    (hrun : ∀ (inner : CallStack) (es : List Expr), inner.room + 1 = stack.room →
      List.Forall₂ (fun p e => Expr.LiteralOf p.ty e) c.params es →
        Ends halts gives (run inner (c.scope.activate c.params es) c.body)) :
    Ends halts gives (Eval.callClosure run stack name c args) := by
  simp only [Eval.callClosure]
  rw [if_pos (show c.arity = args.length from htypes.length_eq)]
  refine (literals_of_types htypes).bind fun es hes => ?_
  exact enter hfull fun inner hinner => hrun inner es hinner hes

/-- Host code reads one value for each name. -/
theorem readArguments {run : Scope → Expr → Result} {s : Scope} {names : List String}
    (hnone : ∀ n ∈ names, s.resolve? n = none →
      halts (.error ⟨.unboundArgument n, stack.frames⟩))
    (hsome : ∀ n ∈ names, ∀ bound env, s.resolve? n = some (bound, env) →
      Ends halts gives (run env bound)) :
    Ends halts (fun vs => vs.length = names.length ∧ ∀ v ∈ vs, gives v)
      (readArguments run stack s names) := by
  induction names with
  | nil => simp [Eval.readArguments]
  | cons n names ih =>
    simp only [Eval.readArguments]
    cases hn : s.resolve? n with
    | none => exact hnone n List.mem_cons_self hn
    | some r =>
      obtain ⟨bound, env⟩ := r
      refine (hsome n List.mem_cons_self bound env hn).bind fun v hv => ?_
      have hothers := ih (fun m hm => hnone m (List.mem_cons_of_mem _ hm))
        (fun m hm => hsome m (List.mem_cons_of_mem _ hm))
      refine hothers.bind fun vs hvs => ?_
      exact ⟨by simp [hvs.1], by simpa using ⟨hv, hvs.2⟩⟩

end Ends

end Eval

end Reckoner
