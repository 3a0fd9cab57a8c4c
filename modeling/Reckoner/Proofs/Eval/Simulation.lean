import Mathlib
import Reckoner.Proofs.Eval.Ends
import Reckoner.Proofs.Eval.Host
import Reckoner.Proofs.Expr.Names

/-! # Evaluations side by side

Two evaluations go side by side when each step of the one is answered by a step of the other that
leads to related expressions in related scopes again.  Then what the first gives is matched by what
the second gives.  The relation is a parameter: more fuel and a higher limit, a table with more
bindings, and names replaced by what they are bound to are all cases of it, so that the evaluator is
opened here once for all of them.  Both evaluations take place on one host, which has to respect the
relation of closures; a host that does not look into their scopes respects enough of them.
-/
namespace Reckoner

/-- A stack beside another that has no less room.  They may differ in their frames, or in their
room, only as far as the errors that would show it are excused. -/
structure CallStack.Abreast (excused : Halt → Prop) (stack stack' : CallStack) : Prop where
  room_le : stack.room ≤ stack'.room
  frames : stack'.frames = stack.frames ∨ ∀ err, excused (.error err)
  room : stack'.room = stack.room ∨ ∀ n frames, excused (.error ⟨.recursionLimit n, frames⟩)

/-- Closures of one function literal, over scopes that are related by `S`. -/
def Closure.Over (S : Scope → Scope → Prop) (c c' : Closure) : Prop :=
  ∃ s', S c.scope s' ∧ c' = { c with scope := s' }

/-- What two lookups find is related by `R`, or they find nothing. -/
inductive Scope.Finds (excused : Halt → Prop) (R : Scope → Expr → Scope → Expr → Prop) :
    Option (Expr × Scope) → Option (Expr × Scope) → Prop where
  | found {e e' : Expr} {env env' : Scope} (h : R env e env' e') :
      Finds excused R (some (e, env)) (some (e', env'))
  | lost : Finds excused R none none
  | excused (h : ∀ err, excused (.error err)) (y : Option (Expr × Scope)) :
      Finds excused R none y

theorem Expr.LiteralOf.within {N : Set String} {ty : Ty} {e : Expr} (h : e.LiteralOf ty) :
    e.Within N := by
  cases h <;> exact within_of_names_eq_nil rfl

theorem Closure.arity_eq {c c' : Closure} (h : c'.params = c.params) : c'.arity = c.arity :=
  congrArg List.length h

theorem Closure.eq_of_over (c c' : Closure) (h : c.Over (fun s s' => s' = s) c') : c' = c := by
  obtain ⟨_, rfl, rfl⟩ := h
  rfl

theorem Scope.Finds.refl {excused : Halt → Prop} {R : Scope → Expr → Scope → Expr → Prop}
    (h : ∀ s e, R s e s e) (x : Option (Expr × Scope)) : Finds excused R x x := by
  cases x with
  | none => exact .lost
  | some found => exact .found (h _ _)

theorem Scope.Finds.imp {excused : Halt → Prop} {R R' : Scope → Expr → Scope → Expr → Prop}
    {x y : Option (Expr × Scope)} (h : Finds excused R x y)
    (hR : ∀ s e s' e', R s e s' e' → R' s e s' e') : Finds excused R' x y := by
  cases h with
  | found h => exact .found (hR _ _ _ _ h)
  | lost => exact .lost
  | excused h y => exact .excused h y

namespace CallStack.Abreast

variable {excused : Halt → Prop} {stack stack' inner inner' : CallStack}

theorem refl (excused : Halt → Prop) (stack : CallStack) : Abreast excused stack stack :=
  ⟨Nat.le_refl _, .inl rfl, .inl rfl⟩

theorem of_room_le (hall : ∀ err, excused (.error err)) (h : stack.room ≤ stack'.room) :
    Abreast excused stack stack' :=
  ⟨h, .inr hall, .inr fun _ _ => hall _⟩

theorem push? (h : Abreast excused stack stack') {frame : StackFrame}
    (hinner : stack.push? frame = some inner) :
    ∃ inner', stack'.push? frame = some inner' ∧ Abreast excused inner inner' := by
  obtain ⟨frames, room⟩ := stack
  obtain ⟨frames', room'⟩ := stack'
  obtain ⟨hle, hframes, hroom⟩ := h
  cases room with
  | zero => cases hinner
  | succ room =>
    cases room' with
    | zero => simp at hle
    | succ room' =>
      cases hinner
      refine ⟨⟨frame :: frames', room'⟩, rfl, ?_, ?_, ?_⟩
      · exact Nat.le_of_succ_le_succ hle
      · exact hframes.imp_left (congrArg (frame :: ·))
      · exact hroom.imp_left Nat.succ.inj

end CallStack.Abreast

/-- Operators do the same with values that are alike. -/
theorem Value.Alike.follows_apply {K : Closure → Closure → Prop} (op : Operator) {v v' w w' : Value}
    (hv : v.Alike K v') (hw : w.Alike K w') :
    Follows (fun _ => False) (Value.Alike K) (op.apply v w) (op.apply v' w') := by
  rw [hv.apply op hw]
  cases h : op.apply v w with
  | ok u => exact .ok (.of_simple (Operator.simple_of_apply h))
  | error cause => exact .error cause

namespace Follows

open Eval (Result)

variable {excused : Halt → Prop} {stack stack' : CallStack} {K : Closure → Closure → Prop}

theorem raise {α β : Type} {R : α → β → Prop} (h : stack.Abreast excused stack')
    (cause : EvalError.Cause) :
    Follows excused R (Eval.raise stack cause) (Eval.raise stack' cause) := by
  rcases h.frames with hframes | hall
  · right
    rw [Eval.raise, hframes]
  · exact .inl (hall _)

theorem enter {R : Value → Value → Prop} (h : stack.Abreast excused stack') (frame : StackFrame)
    {run run' : CallStack → Result}
    (hrun : ∀ inner inner', CallStack.Abreast excused inner inner' →
      Follows excused R (run inner) (run' inner')) :
    Follows excused R (Eval.enter stack frame run) (Eval.enter stack' frame run') := by
  simp only [Eval.enter]
  cases hpush : stack.push? frame with
  | some inner =>
    obtain ⟨inner', hpush', hinner⟩ := h.push? hpush
    rw [hpush']
    exact hrun inner inner' hinner
  | none =>
    -- The first stack is full; the other one is, with the same frames, or nothing is asked of it.
    rcases h.frames with hframes | hall
    · rcases h.room with hroom | hlimit
      · have heq : stack' = stack := by
          cases stack
          cases stack'
          simp_all
        rw [heq, hpush]
        exact .error _
      · exact .of_excused (hlimit _ _) _
    · exact .of_excused (hall _) _

theorem settle {R : Value → Value → Prop} (h : stack.Abreast excused stack')
    {x y : Except EvalError.Cause Value} (hxy : Follows (fun _ => False) R x y) :
    Follows excused R (Eval.settle stack x) (Eval.settle stack' y) := by
  cases x with
  | ok v =>
    obtain ⟨w, rfl, hvw⟩ := hxy
    exact .ok hvw
  | error cause =>
    obtain rfl := hxy.resolve_left id
    exact raise h cause

theorem evalAll {R : Value → Value → Prop} {run run' : Expr → Result} {es es' : List Expr}
    (h : List.Forall₂ (fun e e' => Follows excused R (run e) (run' e')) es es') :
    Follows excused (List.Forall₂ R) (Eval.evalAll run es) (Eval.evalAll run' es') := by
  induction h with
  | nil => exact .ok .nil
  | cons he _ ih =>
    refine he.bind fun v v' hv => ?_
    refine ih.bind fun vs vs' hvs => ?_
    exact .ok (.cons hv hvs)

theorem literals (h : stack.Abreast excused stack') {ps : List Parameter} {vs vs' : List Value}
    (hlen : ps.length = vs.length) (hvs : List.Forall₂ (Value.Alike K) vs vs') :
    Follows excused (fun es es' => es' = es ∧ List.Forall₂ (fun p e => Expr.LiteralOf p.ty e) ps es)
      (Eval.literals stack ps vs) (Eval.literals stack' ps vs') := by
  induction hvs generalizing ps with
  | nil =>
    rw [List.eq_nil_of_length_eq_zero hlen]
    exact .ok ⟨rfl, .nil⟩
  | @cons v v' vs vs' hv _ ih =>
    cases ps with
    | nil => cases hlen
    | cons p ps =>
      simp only [Eval.literals, hv.literal?, hv.simpleType?, hv.shape]
      cases he : v.literal? with
      | none => exact raise h _
      | some e =>
        dsimp only
        split
        · rename_i hty
          refine (ih (Nat.succ.inj hlen)).bind fun es es' hes => ?_
          obtain ⟨rfl, hes⟩ := hes
          exact .ok ⟨rfl, .cons (Value.literalOf he hty) hes⟩
        · exact raise h _

theorem callClosure {R : Value → Value → Prop} (h : stack.Abreast excused stack') (name : String)
    {c c' : Closure} (hparams : c'.params = c.params) {vs vs' : List Value}
    (hvs : List.Forall₂ (Value.Alike K) vs vs') {run run' : CallStack → Scope → Expr → Result}
    (hrun : ∀ inner inner' es, CallStack.Abreast excused inner inner' →
      List.Forall₂ (fun p e => Expr.LiteralOf p.ty e) c.params es →
        Follows excused R (run inner (c.scope.activate c.params es) c.body)
          (run' inner' (c'.scope.activate c.params es) c'.body)) :
    Follows excused R (Eval.callClosure run stack name c vs)
      (Eval.callClosure run' stack' name c' vs') := by
  simp only [Eval.callClosure]
  rw [Closure.arity_eq hparams, hparams, ← hvs.length_eq]
  by_cases harity : c.arity = vs.length
  · rw [if_pos harity, if_pos harity]
    refine (literals h harity hvs).bind fun es es' hes => ?_
    obtain ⟨rfl, hes⟩ := hes
    exact enter h _ fun inner inner' hinner => hrun inner inner' _ hinner hes
  · rw [if_neg harity, if_neg harity]
    exact raise h _

theorem readArguments {Q : Scope → Expr → Scope → Expr → Prop} {R : Value → Value → Prop}
    (h : stack.Abreast excused stack') {s s' : Scope} {run run' : Scope → Expr → Result}
    (hrun : ∀ env e env' e', Q env e env' e' → Follows excused R (run env e) (run' env' e'))
    {names : List String}
    (hnames : ∀ n ∈ names, Scope.Finds excused Q (s.resolve? n) (s'.resolve? n)) :
    Follows excused (List.Forall₂ R) (Eval.readArguments run stack s names)
      (Eval.readArguments run' stack' s' names) := by
  induction names with
  | nil => exact .ok .nil
  | cons n names ih =>
    simp only [Eval.readArguments]
    have hn := hnames n List.mem_cons_self
    generalize s.resolve? n = x, s'.resolve? n = y at hn ⊢
    cases hn with
    | found hfound =>
      refine (hrun _ _ _ _ hfound).bind fun v v' hv => ?_
      refine (ih fun m hm => hnames m (List.mem_cons_of_mem _ hm)).bind fun vs vs' hvs => ?_
      exact .ok (.cons hv hvs)
    | lost => exact raise h _
    | excused hall => exact .of_excused (hall _) _

end Follows

namespace Eval

section Calls

variable {host : Host} {s env : Scope} {f : String} {d : Expr} (fuel : Nat) (stack : CallStack)
  (args : List Expr)

theorem evalWithin_call_unbound (hf : s.resolve? f = none) :
    host.evalWithin (fuel + 1) stack s (.call f args) = raise stack (.unknownFunction f) := by
  rw [Host.evalWithin, hf]

theorem evalWithin_call_literal {m : Nat} {ps : List Parameter} {b : Expr}
    (hf : s.resolve? f = some (.function m ps b, env)) :
    host.evalWithin (fuel + 1) stack s (.call f args) =
      if ps.length = args.length then
        enter stack (.call f) fun stack => host.evalWithin fuel stack (s.activate ps args) b
      else raise stack (.arityMismatch f ps.length args.length) := by
  rw [Host.evalWithin, hf]

theorem evalWithin_call_other (hf : s.resolve? f = some (d, env))
    (hd : ∀ m ps b, d ≠ .function m ps b) :
    host.evalWithin (fuel + 1) stack s (.call f args) =
      enter stack (.symbol f) (fun stack => host.evalWithin fuel stack env d) >>= fun
        | .function c =>
          if c.arity = args.length then
            evalAll (host.evalWithin fuel stack s) args >>= callClosure (host.evalWithin fuel) stack f c
          else raise stack (.arityMismatch f c.arity args.length)
        | _ => raise stack (.unknownFunction f) := by
  rw [Host.evalWithin, hf]
  split
  · rename_i heq
    cases heq
  · rename_i heq
    cases heq
    exact absurd rfl (hd _ _ _)
  · rename_i heq
    cases heq
    rfl

end Calls

variable {host : Host} {excused : Halt → Prop} {R : Scope → Expr → Scope → Expr → Prop}
  {K : Closure → Closure → Prop}

/-- The evaluations of an expression that are not excused all give one value. -/
def Settles (host : Host) (excused : Halt → Prop) (s : Scope) (e : Expr) (v : Value) : Prop :=
  ∀ fuel stack, (∃ halt, excused halt ∧ host.evalWithin fuel stack s e = .error halt) ∨
    host.evalWithin fuel stack s e = .ok v

/-- How one expression in its scope goes beside another in its own: they are of one kind and what
they lead to is related by `R`, or the first is a name and the second goes beside what the name is
bound to, or the second is the literal that the first comes to. -/
inductive Step (host : Host) (excused : Halt → Prop) (R : Scope → Expr → Scope → Expr → Prop)
    (K : Closure → Closure → Prop) (s s' : Scope) : Expr → Expr → Prop where
  | number (x : Float) : Step host excused R K s s' (.number x) (.number x)
  | boolean (b : Bool) : Step host excused R K s s' (.boolean b) (.boolean b)
  | parameter (p : Parameter) : Step host excused R K s s' (.parameter p) (.parameter p)
  | symbol {n : String} (h : Scope.Finds excused R (s.resolve? n) (s'.resolve? n)) :
      Step host excused R K s s' (.symbol n) (.symbol n)
  | expand {n : String} {e e' : Expr} {env : Scope} (hall : ∀ err, excused (.error err))
      (hn : s.resolve? n = some (e, env)) (h : R env e s' e') :
      Step host excused R K s s' (.symbol n) e'
  | settled {e e' : Expr} {v : Value} (h : Settles host excused s e v) (hv : v.literal? = some e') :
      Step host excused R K s s' e e'
  | binary {l r l' r' : Expr} (op : Operator) (hl : R s l s' l') (hr : R s r s' r') :
      Step host excused R K s s' (.binary op l r) (.binary op l' r')
  | function {m m' : Nat} {ps ps' : List Parameter} {b b' : Expr}
      (h : K ⟨m, ps, b, s⟩ ⟨m', ps', b', s'⟩) :
      Step host excused R K s s' (.function m ps b) (.function m' ps' b')
  | callUnbound {f : String} {args args' : List Expr} (hf : s.resolve? f = none)
      (hf' : s'.resolve? f = none ∨ ∀ err, excused (.error err)) :
      Step host excused R K s s' (.call f args) (.call f args')
  | callLiteral {f : String} {m m' : Nat} {ps : List Parameter} {b b' : Expr} {env env' : Scope}
      {args args' : List Expr} (hf : s.resolve? f = some (.function m ps b, env))
      (hf' : s'.resolve? f = some (.function m' ps b', env')) (hlen : args.length = args'.length)
      (h : ps.length = args.length → R (s.activate ps args) b (s'.activate ps args') b') :
      Step host excused R K s s' (.call f args) (.call f args')
  | callOther {f : String} {d d' : Expr} {env env' : Scope} {args args' : List Expr}
      (hf : s.resolve? f = some (d, env)) (hf' : s'.resolve? f = some (d', env'))
      (hd : ∀ m ps b, d ≠ .function m ps b) (hd' : ∀ m ps b, d' ≠ .function m ps b)
      (h : R env d env' d') (hargs : List.Forall₂ (fun a a' => R s a s' a') args args') :
      Step host excused R K s s' (.call f args) (.call f args')
  | native {code : NativeCode}
      (h : ∀ n ∈ code.params, Scope.Finds excused R (s.resolve? n) (s'.resolve? n)) :
      Step host excused R K s s' (.native code) (.native code)

theorem Step.imp {R' : Scope → Expr → Scope → Expr → Prop} {K' : Closure → Closure → Prop}
    {s s' : Scope} {e e' : Expr} (h : Step host excused R K s s' e e')
    (hR : ∀ s e s' e', R s e s' e' → R' s e s' e') (hK : ∀ c c', K c c' → K' c c') :
    Step host excused R' K' s s' e e' := by
  cases h with
  | number x => exact .number x
  | boolean b => exact .boolean b
  | parameter p => exact .parameter p
  | symbol h => exact .symbol (h.imp hR)
  | expand hall hn h => exact .expand hall hn (hR _ _ _ _ h)
  | settled h hv => exact .settled h hv
  | binary op hl hr => exact .binary op (hR _ _ _ _ hl) (hR _ _ _ _ hr)
  | function h => exact .function (hK _ _ h)
  | callUnbound hf hf' => exact .callUnbound hf hf'
  | callLiteral hf hf' hlen h => exact .callLiteral hf hf' hlen fun harity => hR _ _ _ _ (h harity)
  | callOther hf hf' hd hd' h hargs =>
    exact .callOther hf hf' hd hd' (hR _ _ _ _ h) (hargs.imp fun _ _ => hR _ _ _ _)
  | native h => exact .native fun n hn => (h n hn).imp hR

/-- A relation of expressions in their scopes, and one of closures, that every step keeps.  A closure
is only ever called with literals of the types of its parameters. -/
structure Simulation (host : Host) (excused : Halt → Prop)
    (R : Scope → Expr → Scope → Expr → Prop) (K : Closure → Closure → Prop) : Prop where
  exhausted : excused .exhausted
  step {s s' : Scope} {e e' : Expr} (h : R s e s' e') : Step host excused R K s s' e e'
  params {c c' : Closure} (h : K c c') : c'.params = c.params
  body {c c' : Closure} (h : K c c') {es : List Expr}
    (hes : List.Forall₂ (fun p e => Expr.LiteralOf p.ty e) c.params es) :
    R (c.scope.activate c.params es) c.body (c'.scope.activate c.params es) c'.body

namespace Simulation

/-- Closures that are related as far as calls of them can tell. -/
def Closures (R : Scope → Expr → Scope → Expr → Prop) (c c' : Closure) : Prop :=
  c'.params = c.params ∧
    ∀ es, List.Forall₂ (fun p e => Expr.LiteralOf p.ty e) c.params es →
      R (c.scope.activate c.params es) c.body (c'.scope.activate c.params es) c'.body

theorem of_step (hexhausted : excused .exhausted)
    (hstep : ∀ {s s' : Scope} {e e' : Expr}, R s e s' e' → Step host excused R (Closures R) s s' e e') :
    Simulation host excused R (Closures R) :=
  ⟨hexhausted, hstep, And.left, fun h es => h.2 es⟩

/-- Related expressions evaluate to values that are alike, the first with `fuel` and the second with
`fuel'`. -/
def Along (host : Host) (excused : Halt → Prop) (R : Scope → Expr → Scope → Expr → Prop)
    (K : Closure → Closure → Prop) (fuel fuel' : Nat) : Prop :=
  ∀ ⦃stack stack' : CallStack⦄, stack.Abreast excused stack' →
    ∀ ⦃s s' : Scope⦄ ⦃e e' : Expr⦄, R s e s' e' →
      Follows excused (Value.Alike K) (host.evalWithin fuel stack s e)
        (host.evalWithin fuel' stack' s' e')

variable {fuel fuel' : Nat} {stack stack' : CallStack} {s s' : Scope}

theorem callOther (hsim : Simulation host excused R K) (ih : Along host excused R K fuel fuel')
    (hstack : stack.Abreast excused stack') {f : String} {d d' : Expr} {env env' : Scope}
    {args args' : List Expr} (hf : s.resolve? f = some (d, env))
    (hf' : s'.resolve? f = some (d', env')) (hd : ∀ m ps b, d ≠ .function m ps b)
    (hd' : ∀ m ps b, d' ≠ .function m ps b) (h : R env d env' d')
    (hargs : List.Forall₂ (fun a a' => R s a s' a') args args') :
    Follows excused (Value.Alike K) (host.evalWithin (fuel + 1) stack s (.call f args))
      (host.evalWithin (fuel' + 1) stack' s' (.call f args')) := by
  rw [evalWithin_call_other fuel stack args hf hd, evalWithin_call_other fuel' stack' args' hf' hd']
  have hcallee := Follows.enter (R := Value.Alike K) hstack (.symbol f)
    fun _ _ hinner => ih hinner h
  refine hcallee.bind fun v v' hv => ?_
  cases hv with
  | number x => exact .raise hstack _
  | boolean b => exact .raise hstack _
  | @function c c' hc =>
    have hparams := hsim.params hc
    dsimp only
    rw [Closure.arity_eq hparams, ← hargs.length_eq]
    by_cases harity : c.arity = args.length
    · rw [if_pos harity, if_pos harity]
      have hvalues : Follows excused (List.Forall₂ (Value.Alike K))
          (evalAll (host.evalWithin fuel stack s) args)
          (evalAll (host.evalWithin fuel' stack' s') args') :=
        .evalAll (hargs.imp fun _ _ ha => ih hstack ha)
      refine hvalues.bind fun vs vs' hvs => ?_
      exact .callClosure hstack f hparams hvs fun _ _ es hinner hes => ih hinner (hsim.body hc hes)
    · rw [if_neg harity, if_neg harity]
      exact .raise hstack _

/-- The evaluations of related expressions go side by side; the second may have more fuel. -/
theorem along (hsim : Simulation host excused R K) (hhost : host.Respects K) (hle : fuel ≤ fuel') :
    Along host excused R K fuel fuel' := by
  induction fuel generalizing fuel' with
  | zero => exact fun _ _ _ _ _ _ _ _ => .of_excused hsim.exhausted _
  | succ fuel ih =>
    intro stack stack' hstack s s' e e' h
    obtain ⟨fuel', rfl⟩ : ∃ k, fuel' = k + 1 := ⟨fuel' - 1, by omega⟩
    have ih' := ih (Nat.le_of_succ_le_succ hle)
    cases hsim.step h with
    | number x => exact .ok (.number x)
    | boolean b => exact .ok (.boolean b)
    | parameter p =>
      rw [Host.evalWithin, Host.evalWithin]
      cases hty : p.ty with
      | number => exact .ok (.number _)
      | boolean => exact .ok (.boolean _)
      | function params result => exact .raise hstack _
    | @symbol n hn =>
      rw [Host.evalWithin, Host.evalWithin]
      generalize s.resolve? n = x, s'.resolve? n = y at hn ⊢
      cases hn with
      | found hfound => exact .enter hstack _ fun _ _ hinner => ih' hinner hfound
      | lost => exact .raise hstack _
      | excused hall => exact .of_excused (hall _) _
    | @expand n d _ env hall hn hd =>
      -- The second evaluation stays where it is, so it has fuel and room to spare.
      rw [Host.evalWithin, hn]
      dsimp only [enter]
      cases hpush : stack.push? (.symbol n) with
      | none => exact .of_excused (hall _) _
      | some inner =>
        have hinner : inner.Abreast excused stack' := by
          have hroom := CallStack.room_of_push? hpush
          have hle := hstack.room_le
          exact .of_room_le hall (by omega)
        exact ih (Nat.le_of_succ_le hle) hinner hd
    | @settled _ _ v hsettles hv =>
      rcases hsettles (fuel + 1) stack with ⟨halt, hhalt, heq⟩ | heq
      · rw [heq]
        exact .of_excused hhalt _
      · rw [heq]
        cases v with
        | number x => cases hv; exact .ok (.number x)
        | boolean b => cases hv; exact .ok (.boolean b)
        | function c => cases hv
    | binary op hl hr =>
      rw [Host.evalWithin, Host.evalWithin]
      refine (ih' hstack hl).bind fun v v' hv => ?_
      refine (ih' hstack hr).bind fun w w' hw => ?_
      exact .settle hstack (hv.follows_apply op hw)
    | function hc => exact .ok (.function hc)
    | callUnbound hf hf' =>
      rw [evalWithin_call_unbound fuel stack _ hf]
      rcases hf' with hf' | hall
      · rw [evalWithin_call_unbound fuel' stack' _ hf']
        exact .raise hstack _
      · exact .of_excused (hall _) _
    | @callLiteral f m m' ps b b' env env' args args' hf hf' hlen hbody =>
      rw [evalWithin_call_literal fuel stack args hf,
        evalWithin_call_literal fuel' stack' args' hf', ← hlen]
      by_cases harity : ps.length = args.length
      · rw [if_pos harity, if_pos harity]
        exact .enter hstack _ fun _ _ hinner => ih' hinner (hbody harity)
      · rw [if_neg harity, if_neg harity]
        exact .raise hstack _
    | callOther hf hf' hd hd' hcallee hargs =>
      exact hsim.callOther ih' hstack hf hf' hd hd' hcallee hargs
    | @native code hread =>
      rw [Host.evalWithin, Host.evalWithin]
      refine Follows.bind (.readArguments hstack (fun _ _ _ _ hfound => ih' hstack hfound) hread)
        fun vs vs' hvs => ?_
      exact .settle hstack ((hhost code.host _ _ hvs).mapError _)

/-- One expression, whose names are all in `N`, in scopes that are related by `S`. -/
def Shared (N : Set String) (S : Scope → Scope → Prop) (s : Scope) (e : Expr) (s' : Scope)
    (e' : Expr) : Prop :=
  S s s' ∧ e' = e ∧ e.Within N

/-- Scopes in which the names of a set are bound alike, and stay so in every call, are
indistinguishable to the expressions that have no other names. -/
theorem of_scopes {N : Set String} {S : Scope → Scope → Prop} (hexhausted : excused .exhausted)
    (hfinds : ∀ {s s' : Scope}, S s s' → ∀ n ∈ N,
      Scope.Finds excused (Shared N S) (s.resolve? n) (s'.resolve? n))
    (hactivate : ∀ {s s' : Scope}, S s s' → ∀ ps (args : List Expr), (∀ a ∈ args, a.Within N) →
      S (s.activate ps args) (s'.activate ps args)) :
    Simulation host excused (Shared N S) (fun c c' => c.Over S c' ∧ c.body.Within N) where
  exhausted := hexhausted
  params := by rintro c _ ⟨⟨s', -, rfl⟩, -⟩; rfl
  body := by
    rintro c _ ⟨⟨s', hs, rfl⟩, hbody⟩ es hes
    refine ⟨hactivate hs _ es fun e he => ?_, rfl, hbody⟩
    obtain ⟨_, hliteral⟩ := Expr.exists_literalOf_of_mem hes he
    exact hliteral.within
  step := by
    rintro s s' _ e ⟨hs, rfl, he⟩
    cases e with
    | number x => exact .number x
    | boolean b => exact .boolean b
    | symbol n => exact .symbol (hfinds hs n (Expr.within_symbol.mp he))
    | binary op l r =>
      obtain ⟨hl, hr⟩ := Expr.within_binary.mp he
      exact .binary op ⟨hs, rfl, hl⟩ ⟨hs, rfl, hr⟩
    | parameter p => exact .parameter p
    | function m ps b => exact .function ⟨⟨s', hs, rfl⟩, Expr.within_function.mp he⟩
    | native code => exact .native fun n hn => hfinds hs n (he n hn)
    | call f args =>
      obtain ⟨hfN, hargs⟩ := Expr.within_call.mp he
      have hf := hfinds hs f hfN
      generalize hx : s.resolve? f = x, hy : s'.resolve? f = y at hf
      cases hf with
      | lost => exact .callUnbound hx (.inl hy)
      | excused hall => exact .callUnbound hx (.inr hall)
      | @found _ d env env' h =>
        obtain ⟨henv, rfl, hdN⟩ := h
        by_cases hd : ∃ m ps b, d = .function m ps b
        · obtain ⟨m, ps, b, rfl⟩ := hd
          exact .callLiteral hx hy rfl fun _ =>
            ⟨hactivate hs ps args hargs, rfl, Expr.within_function.mp hdN⟩
        · have hd' : ∀ m ps b, d ≠ .function m ps b := fun m ps b h => hd ⟨m, ps, b, h⟩
          exact .callOther hx hy hd' hd' ⟨henv, rfl, hdN⟩
            (List.forall₂_same.mpr fun a ha => ⟨hs, rfl, hargs a ha⟩)

theorem refl (host : Host) (hexhausted : excused .exhausted) :
    Simulation host excused (Shared .univ fun s s' => s' = s)
      (fun c c' => c.Over (fun s s' => s' = s) c' ∧ c.body.Within .univ) := by
  refine of_scopes hexhausted ?_ ?_
  · rintro s _ rfl n -
    exact .refl (fun _ e => ⟨rfl, rfl, e.within_univ⟩) _
  · rintro s _ rfl ps args -
    rfl

end Simulation

/-- More fuel and more room change nothing but the errors that are excused. -/
theorem evalWithin_mono (hexhausted : excused .exhausted) {fuel fuel' : Nat} (hle : fuel ≤ fuel')
    {stack stack' : CallStack} (hstack : stack.Abreast excused stack') (s : Scope) (e : Expr) :
    Follows excused Eq (host.evalWithin fuel stack s e) (host.evalWithin fuel' stack' s e) := by
  have heq : ∀ c c' : Closure, c.Over (fun s s' => s' = s) c' ∧ c.body.Within .univ → c' = c :=
    fun c c' h => Closure.eq_of_over c c' h.1
  have hhost := host.respects_of_eq (fun c => ⟨⟨c.scope, rfl, rfl⟩, c.body.within_univ⟩) heq
  exact (Simulation.along (.refl host hexhausted) hhost hle hstack ⟨rfl, rfl, e.within_univ⟩).imp
    fun _ _ h => (h.eq heq).symm

end Eval

end Reckoner
