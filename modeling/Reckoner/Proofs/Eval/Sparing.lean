import Mathlib
import Reckoner.Eval.Stored
import Reckoner.Proofs.Eval.Ends
import Reckoner.Proofs.Eval.Host
import Reckoner.Proofs.Scope.Work

/-! # Evaluation in a store spares its tables

Whatever an evaluation opens and binds in a store, and whether it fails or not, it opens after the
tables that it finds and binds in what it has opened itself.  The closures that it gives have captured
places of the store.  Host functions may do with their arguments what they like, as long as they get at
no other places through the closures that they give.
-/
namespace Reckoner

namespace Kept

variable {s : Store} {k : Kept} {v : Value}

theorem In.below_value (hk : k.In s) (hs : s.Ordered) : (k.value s).Below s.size := by
  cases k with
  | number x => trivial
  | boolean b => trivial
  | function m ps b p => exact hs.home_lt (hk p rfl)

/-- A value is kept by what is opened for it after the tables that are there. -/
theorem ofValue_spares (hs : s.Ordered) (hv : v.Below s.size) :
    s.Grows (ofValue s v).1 ∧ (ofValue s v).1.Ordered ∧ (ofValue s v).2.In (ofValue s v).1 := by
  cases v with
  | number x => exact ⟨.refl s, hs, fun _ h => nomatch h⟩
  | boolean b => exact ⟨.refl s, hs, fun _ h => nomatch h⟩
  | function c =>
    obtain ⟨hgrows, hordered, hlt⟩ := hs.house hv
    refine ⟨hgrows, hordered, ?_⟩
    rintro _ ⟨⟩
    exact hlt

end Kept

namespace Eval.Stored

open Work (Spares)

variable {host : Host} {base s : Store}

theorem raise_spares {α : Type} {P : Store → α → Prop} (hbase : base.Grows s) (hs : s.Ordered)
    (stack : CallStack) (cause : EvalError.Cause) : Spares base s P (raise stack cause) :=
  .throw hbase hs _

theorem enter_spares {P : Store → Kept → Prop} (hbase : base.Grows s) (hs : s.Ordered)
    (stack : CallStack) (frame : StackFrame) {run : CallStack → Work Halt Kept}
    (hrun : ∀ inner, Spares base s P (run inner)) : Spares base s P (enter stack frame run) := by
  rw [enter]
  cases stack.push? frame with
  | none => exact raise_spares hbase hs _ _
  | some inner => exact hrun inner

theorem settle_spares (hbase : base.Grows s) (hs : s.Ordered) (stack : CallStack)
    {outcome : Except EvalError.Cause Value} (h : ∀ v, outcome = .ok v → v.Below s.size) :
    Spares base s Kept.In (settle stack outcome) := by
  cases outcome with
  | error cause => exact raise_spares hbase hs stack cause
  | ok v =>
    obtain ⟨hgrows, hordered, hin⟩ := Kept.ofValue_spares hs (h v rfl)
    refine ⟨hbase.trans hgrows, hordered, ?_⟩
    rintro _ ⟨⟩
    exact hin

theorem settle_spares_of_simple (hbase : base.Grows s) (hs : s.Ordered) (stack : CallStack)
    {outcome : Except EvalError.Cause Value}
    (h : ∀ v, outcome = .ok v → (∃ x, v = .number x) ∨ ∃ b, v = .boolean b) :
    Spares base s Kept.In (settle stack outcome) := by
  refine settle_spares hbase hs stack fun v hv => ?_
  rcases h v hv with ⟨x, rfl⟩ | ⟨b, rfl⟩ <;> trivial

theorem bindValues_spares (hbase : base.Grows s) (hs : s.Ordered) (stack : CallStack) {inner : Nat}
    (hinner : base.size ≤ inner) (hlt : inner < s.size) (ps : List Parameter) (vs : List Value) :
    Spares base s (fun s' _ => inner < s'.size) (bindValues stack inner ps vs) := by
  induction vs generalizing ps s with
  | nil => cases ps <;> exact .pure hbase hs hlt
  | cons v vs ih =>
    cases ps with
    | nil => exact .pure hbase hs hlt
    | cons p ps =>
      simp only [bindValues]
      cases v.literal? with
      | none => exact raise_spares hbase hs _ _
      | some e =>
        dsimp only
        split
        · have hput := hbase.modify hinner (·.insert p.name e)
          have hlt' : inner < (s.put inner p.name e).size := hlt.trans_eq (Store.size_modify ..).symm
          obtain ⟨hgrows, hordered, hgives⟩ := ih hput (hs.modify inner _) hlt' ps
          exact ⟨hgrows, hordered, hgives⟩
        · exact raise_spares hbase hs _ _

theorem callClosure_spares (hs : s.Ordered) {run : CallStack → Nat → Expr → Work Halt Kept}
    (hrun : ∀ s' stack p e, s.Grows s' → s'.Ordered → p < s'.size →
      Spares s' s' Kept.In (run stack p e))
    (stack : CallStack) (name : String) (ps : List Parameter) (body : Expr) {p : Nat}
    (hp : p < s.size) (vs : List Value) :
    Spares s s Kept.In (callClosure run stack name ps body p vs) := by
  rw [callClosure]
  split
  · have hchild : (s.addChild p .activation).Ordered := hs.add fun q hq => by
      cases hq
      exact hp
    have hopen : s.Grows (s.addChild p .activation) := Store.grows_add s _
    have hlt : s.size < (s.addChild p .activation).size := by simp [Store.addChild]
    refine .openChild ?_
    refine (bindValues_spares hopen hchild stack (Nat.le_refl _) hlt ps vs).bind ?_
    intro s' _ hgrows hordered hlt'
    exact enter_spares hgrows hordered stack _ fun inner =>
      .lift hgrows (hrun s' inner s.size body hgrows hordered hlt')
  · exact raise_spares (.refl s) hs _ _

theorem evalAll_spares (hs : s.Ordered) {run : Expr → Work Halt Kept}
    (hrun : ∀ s' e, s.Grows s' → s'.Ordered → Spares s' s' Kept.In (run e)) (es : List Expr) :
    Spares s s (fun s' ks => ∀ k ∈ ks, k.In s') (evalAll run es) := by
  induction es generalizing s with
  | nil => exact .pure (.refl s) hs fun _ h => nomatch h
  | cons e es ih =>
    refine (hrun s e (.refl s) hs).bind fun s₁ k hgrows hs₁ hk => .lift hgrows ?_
    have hrest := ih hs₁ fun s' e hgrows' => hrun s' e (hgrows.trans hgrows')
    refine hrest.bind fun s₂ ks hgrows' hs₂ hks => ?_
    exact .pure hgrows' hs₂ (List.forall_mem_cons.mpr ⟨hk.grow hgrows', hks⟩)

theorem readArguments_spares (hs : s.Ordered) {run : Nat → Expr → Work Halt Kept}
    (hrun : ∀ s' p e, s.Grows s' → s'.Ordered → p < s'.size → Spares s' s' Kept.In (run p e))
    (stack : CallStack) {p : Nat} (hp : p < s.size) (names : List String) :
    Spares s s (fun s' ks => ∀ k ∈ ks, k.In s') (readArguments run stack p names) := by
  induction names generalizing s with
  | nil => exact .pure (.refl s) hs fun _ h => nomatch h
  | cons n names ih =>
    rw [readArguments]
    refine .get ?_
    cases hread : s.read? p n with
    | none => exact raise_spares (.refl s) hs _ _
    | some found =>
      have hlt := (hs.resolve?_view hp n).2 _ _ hread
      refine (hrun s _ _ (.refl s) hs hlt).bind fun s₁ k hgrows hs₁ hk => .lift hgrows ?_
      have hrest := ih hs₁ (fun s' q e hgrows' => hrun s' q e (hgrows.trans hgrows'))
        (hp.trans_le hgrows.size_le)
      refine hrest.bind fun s₂ ks hgrows' hs₂ hks => ?_
      exact .pure hgrows' hs₂ (List.forall_mem_cons.mpr ⟨hk.grow hgrows', hks⟩)

/-- With this fuel, evaluation at a place of a store spares the tables of the store. -/
def Sparing (host : Host) (fuel : Nat) : Prop :=
  ∀ ⦃s : Store⦄ ⦃p : Nat⦄, s.Ordered → p < s.size → ∀ (stack : CallStack) (e : Expr),
    Spares s s Kept.In (evalWithin host fuel stack p e)

theorem Sparing.call {fuel : Nat} (h : Sparing host fuel) (hs : s.Ordered) {p : Nat} (hp : p < s.size)
    (stack : CallStack) (f : String) (args : List Expr) :
    Spares s s Kept.In (evalWithin host (fuel + 1) stack p (.call f args)) := by
  rw [evalWithin]
  refine .get ?_
  have hlt := (hs.resolve?_view hp f).2
  split
  · exact raise_spares (.refl s) hs _ _
  · split
    · refine .openWith hs hp .activation _ fun s₁ inner hgrows hs₁ hinner => ?_
      exact enter_spares hgrows hs₁ stack _ fun frames => .lift hgrows (h hs₁ hinner frames _)
    · exact raise_spares (.refl s) hs _ _
  · rename_i bound env _ hread
    have hcallee := enter_spares (.refl s) hs stack (.symbol f) fun inner =>
      h hs (hlt _ _ hread) inner bound
    refine hcallee.bind fun s₁ k hgrows hs₁ hk => .lift hgrows ?_
    cases k with
    | number x => exact raise_spares (.refl s₁) hs₁ _ _
    | boolean b => exact raise_spares (.refl s₁) hs₁ _ _
    | function m ps body q =>
      dsimp only
      split
      · have hp₁ := hp.trans_le hgrows.size_le
        have hvalues := evalAll_spares hs₁
          (fun s' e hgrows' hs' => h hs' (hp₁.trans_le hgrows'.size_le) stack e) args
        refine hvalues.bind fun s₂ ks hgrows' hs₂ _ => .get (.lift hgrows' ?_)
        exact callClosure_spares hs₂ (fun s' frames q' e _ hs' hq' => h hs' hq' frames e) stack f ps
          body ((hk q rfl).trans_le hgrows'.size_le) _
      · exact raise_spares (.refl s₁) hs₁ _ _

section Hosts

variable (hhost : host.Confined)
include hhost

theorem sparing_all (fuel : Nat) : Sparing host fuel := by
  induction fuel with
  | zero => exact fun s p hs _ _ _ => .throw (.refl s) hs _
  | succ fuel ih =>
    intro s p hs hp stack e
    have hrefl : s.Grows s := .refl s
    cases e with
    | number x => exact .pure hrefl hs fun _ h => nomatch h
    | boolean b => exact .pure hrefl hs fun _ h => nomatch h
    | function m ps b =>
      refine .pure hrefl hs ?_
      rintro _ ⟨⟩
      exact hp
    | parameter param =>
      rw [evalWithin]
      cases hty : param.ty with
      | number => exact settle_spares hrefl hs stack fun v hv => by cases hv; trivial
      | boolean => exact settle_spares hrefl hs stack fun v hv => by cases hv; trivial
      | function params result => exact raise_spares hrefl hs _ _
    | symbol n =>
      rw [evalWithin]
      refine .get ?_
      cases hread : s.read? p n with
      | none => exact raise_spares hrefl hs _ _
      | some found =>
        have hlt := (hs.resolve?_view hp n).2 _ _ hread
        exact enter_spares hrefl hs stack _ fun inner => ih hs hlt inner found.1
    | binary op l r =>
      rw [evalWithin]
      refine (ih hs hp stack l).bind fun s₁ left hgrows hs₁ _ => .lift hgrows ?_
      refine (ih hs₁ (hp.trans_le hgrows.size_le) stack r).bind
        fun s₂ right hgrows' hs₂ _ => .get ?_
      exact settle_spares_of_simple hgrows' hs₂ stack fun v hv => Operator.simple_of_apply hv
    | native code =>
      rw [evalWithin]
      have hread := readArguments_spares hs (fun s' q d _ hs' hq => ih hs' hq stack d) stack hp
        code.params
      refine hread.bind fun s₁ ks hgrows hs₁ hks => .get ?_
      refine settle_spares hgrows hs₁ stack fun v hv => ?_
      refine hhost s₁.size code.host _ v ?_ (mapError_eq_ok_iff.mp hv)
      exact List.forall_mem_map.mpr fun k hk => (hks k hk).below_value hs₁
    | call f args => exact ih.call hs hp stack f args

theorem eval_spares (limit : Nat) (hs : s.Ordered) {p : Nat} (hp : p < s.size) (e : Expr) :
    Spares s s Kept.In (eval host limit p e) :=
  .get (sparing_all hhost _ hs hp _ e)

theorem call_spares (limit : Nat) (hs : s.Ordered) (ps : List Parameter) (body : Expr) {p : Nat}
    (hp : p < s.size) (vs : List Value) : Spares s s Kept.In (call host limit ps body p vs) :=
  .get (callClosure_spares hs (fun _ stack _ e _ hs' hq => sparing_all hhost _ hs' hq stack e) _ _
    ps body hp vs)

end Hosts

end Eval.Stored

end Reckoner
