import Mathlib
import Reckoner.Proofs.Eval.Ends
import Reckoner.Proofs.Eval.Host
import Reckoner.Proofs.Expr.Names
import Reckoner.Proofs.Scope.Lookup

/-! # The names in errors

An evaluation or a check that fails speaks of no names but those that stand in the expression or in
the bindings of the scope, and, for the frames of a backtrace, of those already on the stack.  A
suggestion is one of the bound names.
-/
namespace Reckoner

def StackFrame.name : StackFrame → String
  | call n => n
  | symbol n => n

/-- Every name that a cause speaks of has a property; what host code says is its own. -/
def EvalError.Cause.Named (P : String → Prop) : EvalError.Cause → Prop
  | unknownSymbol n => P n
  | unknownFunction n => P n
  | arityMismatch n _ _ => P n
  | incompatible _ _ => True
  | recursionLimit _ => True
  | native n message => P n ∧ ∃ f args, Prelude.host.run f args = .error message
  | unboundArgument n => P n

def Backtrace.Named (P : String → Prop) (b : Backtrace) : Prop :=
  ∀ f ∈ b, P f.name

/-- An error, if it is one, that speaks only of names with a property. -/
def Halt.Named (P : String → Prop) : Halt → Prop
  | .error err => err.cause.Named P ∧ err.backtrace.Named P
  | .exhausted => True

def TypeError.Named (P : String → Prop) : TypeError → Prop
  | unknownSymbol n suggestion => P n ∧ ∀ m ∈ suggestion, P m
  | unknownFunction n suggestion => P n ∧ ∀ m ∈ suggestion, P m
  | arityMismatch n _ _ => P n
  | incompatible _ _ => True
  | recursionLimit _ => True

/-- A table whose names, and those in its bindings, have a property. -/
def Table.Named (P : String → Prop) (t : Table) : Prop :=
  ∀ b ∈ t.entries, P b.1 ∧ b.2.Named P

def Scope.Named (P : String → Prop) (s : Scope) : Prop :=
  ∀ f ∈ s, f.table.Named P

/-- A value that is such a function in such a scope, if it is a function at all. -/
def Value.Named (P : String → Prop) : Value → Prop
  | .function c => c.literal.Named P ∧ c.scope.Named P
  | _ => True

variable {P : String → Prop}

namespace Table

theorem Named.insert {t : Table} (h : t.Named P) {n : String} {e : Expr} (hn : P n)
    (he : e.Named P) : (t.insert n e).Named P := by
  intro b hb
  rcases mem_insertEntry hb with rfl | hb
  · exact ⟨hn, he⟩
  · exact h b hb

theorem Named.insertAll {t : Table} (h : t.Named P) {bindings : List (String × Expr)}
    (hb : ∀ b ∈ bindings, P b.1 ∧ b.2.Named P) : (t.insertAll bindings).Named P := by
  induction bindings generalizing t with
  | nil => exact h
  | cons b bindings ih =>
    obtain ⟨⟨hn, he⟩, hrest⟩ := List.forall_mem_cons.mp hb
    exact ih (h.insert hn he) hrest

theorem named_ofList {bindings : List (String × Expr)} (h : ∀ b ∈ bindings, P b.1 ∧ b.2.Named P) :
    (ofList bindings).Named P :=
  Named.insertAll (fun _ hb => absurd hb List.not_mem_nil) h

theorem Named.get? {t : Table} (h : t.Named P) {n : String} {e : Expr} (he : t.get? n = some e) :
    P n ∧ e.Named P :=
  h _ (mem_entries_of_get? he)

end Table

namespace Scope

variable {s : Scope}

theorem Named.resolve? (hs : s.Named P) {n : String} {e : Expr} {env : Scope}
    (h : s.resolve? n = some (e, env)) : e.Named P ∧ env.Named P := by
  obtain ⟨⟨f, hf, hget⟩, hsub⟩ := mem_of_resolve? h
  exact ⟨((hs f hf).get? hget).2, fun g hg => hs g (hsub hg)⟩

theorem Named.activate (hs : s.Named P) {ps : List Parameter} (hps : ∀ p ∈ ps, P p.name)
    {args : List Expr} (hargs : ∀ a ∈ args, a.Named P) : (s.activate ps args).Named P := by
  refine List.forall_mem_cons.mpr ⟨Table.named_ofList fun b hb => ?_, hs⟩
  obtain ⟨hname, harg⟩ := List.of_mem_zip hb
  obtain ⟨p, hp, heq⟩ := List.mem_map.mp hname
  exact ⟨heq ▸ hps p hp, hargs _ harg⟩

theorem Named.declare (hs : s.Named P) {ps : List Parameter} (hps : ∀ p ∈ ps, P p.name) :
    (s.declare ps).Named P := by
  refine List.forall_mem_cons.mpr ⟨Table.named_ofList fun b hb => ?_, hs⟩
  obtain ⟨p, hp, rfl⟩ := List.mem_map.mp hb
  exact ⟨hps p hp, .parameter (hps p hp)⟩

theorem Named.visibleNames (hs : s.Named P) : ∀ n ∈ s.visibleNames, P n := by
  induction s with
  | nil => simp [Scope.visibleNames]
  | cons f outer ih =>
    obtain ⟨hf, houter⟩ := List.forall_mem_cons.mp hs
    intro n hn
    rcases List.mem_append.mp hn with hn | hn
    · obtain ⟨b, hb, rfl⟩ := List.mem_map.mp hn
      exact (hf b hb).1
    · exact ih houter n (List.mem_of_mem_filter hn)

theorem closer_some {name candidate : String} {best : Option (String × Nat)} {found : String × Nat}
    (h : closer name best candidate = some found) : found.1 = candidate ∨ best = some found := by
  unfold closer at h
  split at h
  · exact .inr h
  · cases h
    exact .inl rfl
  · split at h
    · cases h
      exact .inl rfl
    · exact .inr h

theorem mem_of_foldl_closer {name : String} {candidates : List String}
    {best : Option (String × Nat)} {found : String × Nat}
    (h : candidates.foldl (closer name) best = some found) :
    found.1 ∈ candidates ∨ best = some found := by
  induction candidates generalizing best with
  | nil => exact .inr h
  | cons candidate candidates ih =>
    rcases ih h with hmem | hbest
    · exact .inl (List.mem_cons_of_mem _ hmem)
    · exact (closer_some hbest).imp_left fun heq => by simp [heq]

/-- What is suggested is bound. -/
theorem mem_visibleNames_of_suggest? {name suggestion : String}
    (h : s.suggest? name = some suggestion) : suggestion ∈ s.visibleNames := by
  unfold suggest? closest? at h
  split at h
  · cases h
  · obtain ⟨found, hfound, rfl⟩ := Option.map_eq_some_iff.mp h
    exact (mem_of_foldl_closer hfound).resolve_right (by simp)

theorem Named.suggest? (hs : s.Named P) (n : String) : ∀ m ∈ s.suggest? n, P m :=
  fun m hm => hs.visibleNames m (mem_visibleNames_of_suggest? hm)

end Scope

theorem Backtrace.Named.push? {stack inner : CallStack} (h : Backtrace.Named P stack.frames)
    {f : StackFrame} (hf : P f.name) (hinner : stack.push? f = some inner) :
    Backtrace.Named P inner.frames := by
  rw [CallStack.frames_of_push? hinner]
  exact List.forall_mem_cons.mpr ⟨hf, h⟩

namespace Eval

theorem Ends.raise_named {α : Type} {gives : α → Prop} {stack : CallStack}
    (hstack : Backtrace.Named P stack.frames) {cause : EvalError.Cause} (h : cause.Named P) :
    Ends (Halt.Named P) gives (Eval.raise stack cause) :=
  .raise ⟨h, hstack⟩

/-- The evaluations with some fuel speak only of names in the expression, the scope and the stack. -/
def Names (P : String → Prop) (fuel : Nat) : Prop :=
  ∀ ⦃stack : CallStack⦄ ⦃s : Scope⦄ ⦃e : Expr⦄, Backtrace.Named P stack.frames → s.Named P →
    e.Named P → Ends (Halt.Named P) (Value.Named P) (Prelude.host.evalWithin fuel stack s e)

variable {fuel : Nat} {stack : CallStack} {s : Scope}

theorem Names.callClosure (ih : Names P fuel) (hstack : Backtrace.Named P stack.frames)
    {f : String} (hf : P f) {c : Closure} (hliteral : c.literal.Named P) (hscope : c.scope.Named P)
    {vs : List Value} (harity : c.arity = vs.length) :
    Ends (Halt.Named P) (Value.Named P) (callClosure (Prelude.host.evalWithin fuel) stack f c vs) := by
  cases hliteral with
  | function _ hps hbody =>
    refine Ends.callClosure_push harity (fun _ _ => ⟨trivial, hstack⟩)
      (fun _ => ⟨trivial, hstack⟩) fun inner es hinner hes => ?_
    refine ih (hstack.push? (f := .call f) hf hinner) (hscope.activate hps fun e he => ?_) hbody
    obtain ⟨_, hliteral⟩ := Expr.exists_literalOf_of_mem hes he
    cases hliteral with
    | number x => exact .number x
    | boolean b => exact .boolean b

theorem Names.call (ih : Names P fuel) (hstack : Backtrace.Named P stack.frames) (hs : s.Named P)
    {f : String} (hf : P f) {args : List Expr} (hargs : ∀ a ∈ args, a.Named P) :
    Ends (Halt.Named P) (Value.Named P)
      (Prelude.host.evalWithin (fuel + 1) stack s (.call f args)) := by
  rw [Host.evalWithin]
  split
  · exact .raise_named hstack hf
  · rename_i m ps body env hfound
    obtain ⟨hfunction, -⟩ := hs.resolve? hfound
    cases hfunction with
    | function _ hps hbody =>
      split
      · refine Ends.enter_push (fun _ => ⟨trivial, hstack⟩) fun inner hinner => ?_
        exact ih (hstack.push? (f := .call f) hf hinner) (hs.activate hps hargs) hbody
      · exact .raise_named hstack hf
  · rename_i bound env _ hfound
    obtain ⟨hbound, henv⟩ := hs.resolve? hfound
    have hcallee : Ends (Halt.Named P) (Value.Named P)
        (enter stack (.symbol f) fun stack => Prelude.host.evalWithin fuel stack env bound) := by
      refine Ends.enter_push (fun _ => ⟨trivial, hstack⟩) fun inner hinner => ?_
      exact ih (hstack.push? (f := .symbol f) hf hinner) henv hbound
    refine hcallee.bind fun v hv => ?_
    split
    · rename_i c
      split
      · rename_i harity
        have hvalues : Ends (Halt.Named P) (List.Forall₂ (fun _ _ => True) args)
            (evalAll (Prelude.host.evalWithin fuel stack s) args) := by
          apply Ends.evalAll
          rw [List.forall₂_same]
          exact fun a ha => (ih hstack hs (hargs a ha)).mono (fun _ h => h) fun _ _ => trivial
        refine hvalues.bind fun vs hlen => ?_
        exact ih.callClosure hstack hf hv.1 hv.2 (harity.trans hlen.length_eq)
      · exact .raise_named hstack hf
    · exact .raise_named hstack hf

/-- Evaluations speak of no other names than the program does. -/
theorem names_all (P : String → Prop) (fuel : Nat) : Names P fuel := by
  induction fuel with
  | zero => exact fun _ _ _ _ _ _ => trivial
  | succ fuel ih =>
    intro stack s e hstack hs he
    cases he with
    | number x => trivial
    | boolean b => trivial
    | @symbol n hn =>
      rw [Host.evalWithin]
      split
      · exact .raise_named hstack hn
      · rename_i bound env hfound
        obtain ⟨hbound, henv⟩ := hs.resolve? hfound
        refine Ends.enter_push (fun _ => ⟨trivial, hstack⟩) fun inner hinner => ?_
        exact ih (hstack.push? (f := .symbol n) hn hinner) henv hbound
    | binary op hl hr =>
      rw [Host.evalWithin]
      refine (ih hstack hs hl).bind fun left _ => ?_
      refine (ih hstack hs hr).bind fun right _ => ?_
      refine Ends.settle_apply (fun _ _ => ⟨trivial, hstack⟩) fun v hv => ?_
      rcases Operator.simple_of_apply hv with ⟨x, rfl⟩ | ⟨b, rfl⟩ <;> trivial
    | @parameter p hp =>
      rw [Host.evalWithin]
      cases hty : p.ty with
      | number => trivial
      | boolean => trivial
      | function params result => exact .raise_named hstack hp
    | function m hps hb => exact ⟨.function m hps hb, hs⟩
    | call hf hargs => exact ih.call hstack hs hf hargs
    | @native code hname hparams =>
      rw [Host.evalWithin]
      refine (Ends.readArguments (fun n hn _ => ⟨hparams n hn, hstack⟩)
        fun n _ bound env hfound => ih hstack (hs.resolve? hfound).2 (hs.resolve? hfound).1).bind
          fun vs _ => ?_
      cases h : Prelude.host.run code.host vs with
      | ok v =>
        obtain ⟨x, rfl⟩ := Prelude.number_of_run h
        trivial
      | error message => exact .raise_named hstack ⟨hname, code.host, vs, h⟩

/-- A failed evaluation names what the program names. -/
theorem named_of_eval_error {limit : Nat} {e : Expr} {err : EvalError} (hs : s.Named P)
    (he : e.Named P) (h : eval limit s e = .error (.error err)) :
    err.cause.Named P ∧ err.backtrace.Named P := by
  have hends : Ends (Halt.Named P) (Value.Named P) (eval limit s e) :=
    names_all P _ (fun _ hf => nomatch hf) hs he
  rw [h] at hends
  exact hends

end Eval

namespace Typing

variable {s : Scope} {e : Expr}

theorem checkArguments_named {check : Expr → Result} {args : List Expr}
    (h : ∀ a ∈ args, ∀ err, check a = .error err → err.Named P) {params : List Ty} {err : TypeError}
    (herr : checkArguments check params args = .error err) : err.Named P := by
  induction args generalizing params with
  | nil => cases params <;> cases herr
  | cons a args ih =>
    obtain ⟨ha, hargs⟩ := List.forall_mem_cons.mp h
    cases params with
    | nil => cases herr
    | cons p params =>
      rw [checkArguments, bind_eq_error_iff] at herr
      rcases herr with hcheck | ⟨ty, -, herr⟩
      · exact ha _ hcheck
      · split at herr
        · exact ih hargs herr
        · cases herr
          trivial

/-- A failed check names what the program names. -/
theorem named_of_checkWithin_error {limit room : Nat} {err : TypeError} (hs : s.Named P)
    (he : e.Named P) (h : checkWithin limit room s e = .error err) : err.Named P := by
  induction room generalizing s e err with
  | zero => cases h; trivial
  | succ room ih =>
    cases he with
    | number x => cases h
    | boolean b => cases h
    | parameter hp => cases h
    | native hname hparams => cases h
    | @symbol n hn =>
      rw [checkWithin] at h
      split at h
      · cases h
        exact ⟨hn, hs.suggest? n⟩
      · rename_i bound env hfound
        obtain ⟨hbound, henv⟩ := hs.resolve? hfound
        exact ih henv hbound h
    | @binary l r op hl hr =>
      rw [checkWithin, bind_eq_error_iff] at h
      rcases h with hleft | ⟨left, -, h⟩
      · exact ih hs hl hleft
      · rcases bind_eq_error_iff.mp h with hright | ⟨right, -, h⟩
        · exact ih hs hr hright
        · split at h <;> cases h
          trivial
    | @function ps b m hps hb =>
      rw [checkWithin, bind_eq_error_iff] at h
      rcases h with hbody | ⟨result, -, h⟩
      · exact ih (hs.declare hps) hb hbody
      · cases h
    | @call f args hf hargs =>
      rw [checkWithin] at h
      split at h
      · cases h
        exact ⟨hf, hs.suggest? f⟩
      · rename_i bound env hfound
        obtain ⟨hbound, henv⟩ := hs.resolve? hfound
        rcases bind_eq_error_iff.mp h with hcallee | ⟨ty, -, h⟩
        · exact ih henv hbound hcallee
        · split at h
          · split at h
            · rcases bind_eq_error_iff.mp h with hcheck | ⟨_, -, h⟩
              · exact checkArguments_named (fun a ha err herr => ih hs (hargs a ha) herr) hcheck
              · cases h
            · cases h
              exact hf
          · cases h
            exact ⟨hf, by simp⟩

end Typing

end Reckoner
