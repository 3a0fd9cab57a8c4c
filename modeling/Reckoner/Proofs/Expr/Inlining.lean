import Mathlib
import Reckoner.Proofs.Eval.Fuel
import Reckoner.Proofs.Expr.Rewriting
import Reckoner.Proofs.Scope.Twins

/-! # Inlined bodies

The body of a function is inlined by putting the arguments of a call in the place of the parameters, all
of them at once.  Callees are names and stay as they are, and so does what host code reads.
-/
namespace Reckoner

namespace Expr

mutual

/-- An expression with its free symbols replaced, all at once, as an assignment says. -/
def assign (σ : String → Option Expr) : Expr → Expr
  | symbol n => (σ n).getD (symbol n)
  | binary op l r => binary op (assign σ l) (assign σ r)
  | function m ps b => function m ps (assign (fun n => if declares ps n then none else σ n) b)
  | call f args => call f (assignAll σ args)
  | e => e

def assignAll (σ : String → Option Expr) : List Expr → List Expr
  | [] => []
  | e :: es => assign σ e :: assignAll σ es

end

theorem assign_parameter (σ : String → Option Expr) (p : Parameter) :
    assign σ (parameter p) = parameter p := rfl

theorem assign_native (σ : String → Option Expr) (code : NativeCode) :
    assign σ (native code) = native code := rfl

theorem assignAll_eq_map (σ : String → Option Expr) (es : List Expr) :
    assignAll σ es = es.map (assign σ) := by
  induction es with
  | nil => rfl
  | cons e es ih => rw [assignAll, ih, List.map_cons]

mutual

/-- Where nothing is assigned, nothing is replaced. -/
theorem assign_none : ∀ e : Expr, assign (fun _ => none) e = e
  | .number _ | .boolean _ | .symbol _ | .parameter _ | .native _ => rfl
  | .binary op l r => by rw [assign, assign_none l, assign_none r]
  | .function m ps b => by
    simp only [assign, ite_self]
    rw [assign_none b]
  | .call f args => by rw [assign, assignAll_none args]

theorem assignAll_none : ∀ es : List Expr, assignAll (fun _ => none) es = es
  | [] => rfl
  | e :: es => by rw [assignAll, assign_none e, assignAll_none es]

end

def only (x : String) (r : Expr) (n : String) : Option Expr :=
  if n = x then some r else none

mutual

/-- To replace one name by an assignment is to substitute for it. -/
theorem assign_only (x : String) (r : Expr) : ∀ e : Expr, assign (only x r) e = substitute x r e
  | .number _ | .boolean _ | .parameter _ | .native _ => rfl
  | .symbol n => by
    rw [assign, substitute_symbol, only]
    split <;> rfl
  | .binary op l r' => by
    rw [assign, substitute_binary, assign_only x r l, assign_only x r r']
  | .function m ps b => by
    rw [assign, substitute_function]
    split
    · rename_i hdeclared
      have hnone : (fun n => if declares ps n then none else only x r n) = fun _ => none := by
        funext n
        by_cases hn : n = x
        · rw [hn, if_pos hdeclared]
        · rw [only, if_neg hn, ite_self]
      rw [hnone, assign_none]
    · rename_i hdeclared
      have hsame : (fun n => if declares ps n then none else only x r n) = only x r := by
        funext n
        by_cases hn : n = x
        · rw [hn, if_neg hdeclared]
        · rw [only, if_neg hn, ite_self]
      rw [hsame, assign_only x r b]
  | .call f args => by rw [assign, substitute_call, assignAll_only x r args]

theorem assignAll_only (x : String) (r : Expr) :
    ∀ es : List Expr, assignAll (only x r) es = es.map (substitute x r)
  | [] => rfl
  | e :: es => by rw [assignAll, List.map_cons, assign_only x r e, assignAll_only x r es]

end

/-- What parameters are replaced by where arguments are put in their place.  Of parameters with the same
name the last one counts. -/
def arguments (ps : List Parameter) (args : List Expr) (n : String) : Option Expr :=
  (Table.ofList ((ps.map (·.name)).zip args)).get? n

theorem arguments_eq_none {ps : List Parameter} {n : String} (h : declares ps n = false)
    (args : List Expr) : arguments ps args n = none := by
  cases hn : arguments ps args n with
  | none => rfl
  | some a =>
    obtain ⟨p, hp, heq⟩ := List.mem_map.mp (List.of_mem_zip (Table.mem_of_get?_ofList hn)).1
    have hne := List.any_eq_false.mp h p hp
    simp [heq] at hne

theorem exists_arguments {ps : List Parameter} {args : List Expr} (hlen : ps.length = args.length)
    {n : String} (h : declares ps n = true) : ∃ a ∈ args, arguments ps args n = some a := by
  obtain ⟨p, hp, heq⟩ := List.any_eq_true.mp h
  have hbound : arguments ps args n ≠ none := by
    apply Table.get?_ofList_ne_none
    rw [List.map_fst_zip (by simp [hlen])]
    exact List.mem_map.mpr ⟨p, hp, by simpa using heq⟩
  obtain ⟨a, ha⟩ := Option.ne_none_iff_exists'.mp hbound
  exact ⟨a, (List.of_mem_zip (Table.mem_of_get?_ofList ha)).2, ha⟩

theorem arguments_map (f : Expr → Expr) (ps : List Parameter) (args : List Expr) (n : String) :
    arguments ps (args.map f) n = (arguments ps args n).map f := by
  have hrel : List.Forall₂ (fun a a' => a' = f a) args (args.map f) :=
    List.forall₂_map_right_iff.mpr (List.forall₂_same.mpr fun _ _ => rfl)
  have hn := Table.get?_ofList_zip hrel (ps.map (·.name)) n
  rw [arguments, arguments]
  generalize (Table.ofList ((ps.map (·.name)).zip args)).get? n = x,
    (Table.ofList ((ps.map (·.name)).zip (args.map f))).get? n = y at hn ⊢
  cases hn with
  | none => rfl
  | some h => rw [h, Option.map_some]

mutual

/-- The names that stand in an expression as a callee. -/
def callees : Expr → List String
  | binary _ l r => callees l ++ callees r
  | function _ _ b => callees b
  | call f args => f :: calleesAll args
  | _ => []

def calleesAll : List Expr → List String
  | [] => []
  | e :: es => callees e ++ calleesAll es

end

theorem mem_calleesAll {c : String} {es : List Expr} :
    c ∈ calleesAll es ↔ ∃ e ∈ es, c ∈ e.callees := by
  induction es with
  | nil => simp [calleesAll]
  | cons e es ih => simp [calleesAll, ih]

/-- Expressions without function literals whose symbols are all parameters, with host code of some kind
only. -/
inductive Over (hosts : NativeCode → Prop) (ps : List Parameter) : Expr → Prop where
  | number (x : Float) : Over hosts ps (.number x)
  | boolean (b : Bool) : Over hosts ps (.boolean b)
  | symbol {n : String} (h : declares ps n = true) : Over hosts ps (.symbol n)
  | binary {l r : Expr} (op : Operator) (hl : Over hosts ps l) (hr : Over hosts ps r) :
      Over hosts ps (.binary op l r)
  | parameter (p : Parameter) : Over hosts ps (.parameter p)
  | call {args : List Expr} (f : String) (h : ∀ a ∈ args, Over hosts ps a) :
      Over hosts ps (.call f args)
  | native {code : NativeCode} (h : hosts code) : Over hosts ps (.native code)

theorem Over.functionFree {hosts : NativeCode → Prop} {ps : List Parameter} {e : Expr}
    (h : e.Over hosts ps) : e.FunctionFree := by
  induction h with
  | number x => exact .number x
  | boolean b => exact .boolean b
  | @symbol n _ => exact .symbol n
  | binary op _ _ ihl ihr => exact .binary op ihl ihr
  | parameter p => exact .parameter p
  | call f _ ih => exact .call f ih
  | @native code _ => exact .native code

/-- Host code stays the body of functions where such expressions are put in. -/
theorem Placed.assign {σ : String → Option Expr} (hσ : ∀ n a, σ n = some a → a.Placed) {e : Expr}
    (he : e.Placed) (hfree : e.FunctionFree) : (e.assign σ).Placed := by
  induction hfree with
  | number x => exact .number x
  | boolean b => exact .boolean b
  | parameter p => exact .parameter p
  | native code => cases he
  | symbol n =>
    rw [Expr.assign]
    cases hn : σ n with
    | none => exact .symbol n
    | some a => exact hσ n a hn
  | binary op _ _ ihl ihr =>
    cases he with
    | binary _ hl hr =>
      rw [Expr.assign]
      exact .binary op (ihl hl) (ihr hr)
  | call f _ ih =>
    cases he with
    | call _ hargs =>
      rw [Expr.assign, assignAll_eq_map]
      refine .call f fun a ha => ?_
      obtain ⟨b, hb, rfl⟩ := List.mem_map.mp ha
      exact ih b hb (hargs b hb)

end Expr

def NativeCode.ReadsOnly (ps : List Parameter) (code : NativeCode) : Prop :=
  ∀ n ∈ code.params, Expr.declares ps n = true

/-- A name that a table binds to a function literal or not at all, and that is no parameter of its
function literals. -/
structure Table.Callee (t : Table) (c : String) : Prop where
  bound : t.get? c = none ∨ ∃ m ps b, t.get? c = some (.function m ps b)
  undeclared : ∀ f m ps b, t.get? f = some (.function m ps b) → Expr.declares ps c = false

/-- A table whose function literals can be inlined, and arguments for them.  Every function literal is a
binding of the table, and its body is host code that reads just its parameters, or an expression over
them, with host code as `hosts` allows it for these parameters. -/
structure Table.Inlinable (hosts : List Parameter → NativeCode → Prop) (t : Table)
    (args : List Expr) : Prop where
  bindings : ∀ n e, t.get? n = some e → e.FunctionFree ∨ ∃ m ps b, e = .function m ps b ∧
    ((∃ code, b = .native code ∧ code.params = ps.map (·.name)) ∨ b.Over (hosts ps) ps)
  arguments : ∀ a ∈ args, a.FunctionFree
  callees : ∀ c, (∃ n e, t.get? n = some e ∧ c ∈ e.callees) ∨ (∃ a ∈ args, c ∈ a.callees) → t.Callee c

/-- In the body of every function literal, host code reads parameters of that literal only. -/
theorem Table.Inlinable.over {t : Table} {args : List Expr}
    (h : t.Inlinable NativeCode.ReadsOnly args) {f : String} {m : Nat} {ps : List Parameter} {b : Expr}
    (hf : t.get? f = some (.function m ps b)) : b.Over (NativeCode.ReadsOnly ps) ps := by
  rcases h.bindings f _ hf with hfree | ⟨_, _, _, heq, ⟨code, rfl, hcode⟩ | hover⟩
  · cases hfree
  · cases heq
    refine .native fun n hn => ?_
    obtain ⟨p, hp, rfl⟩ := List.mem_map.mp (hcode ▸ hn)
    exact List.any_eq_true.mpr ⟨p, hp, by simp⟩
  · cases heq
    exact hover

end Reckoner
