import Mathlib
import Reckoner.Expr.Node
import Reckoner.Proofs.Expr.Names

/-! # What substitution replaces and what it keeps

A name that is mentioned is used as a symbol or called.  Substitution replaces the uses and leaves the
callees alone, so it changes an expression exactly if the name is used there.  In memory, what does not
use the name stays the very node that it was.
-/
namespace Reckoner

namespace Expr

/-- Induction over expressions, with all arguments of a call at once. -/
@[elab_as_elim]
theorem induct {P : Expr → Prop} (number : ∀ x, P (.number x)) (boolean : ∀ b, P (.boolean b))
    (symbol : ∀ n, P (.symbol n)) (binary : ∀ op l r, P l → P r → P (.binary op l r))
    (parameter : ∀ p, P (.parameter p)) (function : ∀ m ps b, P b → P (.function m ps b))
    (call : ∀ f args, (∀ a ∈ args, P a) → P (.call f args)) (native : ∀ c, P (.native c)) (e : Expr) :
    P e :=
  @Expr.rec P (fun es => ∀ a ∈ es, P a) number boolean symbol binary parameter function call native
    (fun _ ha => nomatch ha) (fun _ _ he hes => List.forall_mem_cons.mpr ⟨he, hes⟩) e

/-- Expressions in which `x` is the callee of a call, outside the function literals that declare it. -/
inductive Calls (x : String) : Expr → Prop where
  | callee (args : List Expr) : Calls x (.call x args)
  | left {l : Expr} (op : Operator) (r : Expr) (h : Calls x l) : Calls x (.binary op l r)
  | right {r : Expr} (op : Operator) (l : Expr) (h : Calls x r) : Calls x (.binary op l r)
  | body {ps : List Parameter} {b : Expr} (m : Nat) (hps : declares ps x = false) (h : Calls x b) :
      Calls x (.function m ps b)
  | argument {a : Expr} {args : List Expr} (f : String) (ha : a ∈ args) (h : Calls x a) :
      Calls x (.call f args)

section Occurrences

variable {x : String} {op : Operator} {l r b : Expr} {m : Nat} {ps : List Parameter} {f : String}
  {args : List Expr}

theorem uses_binary_iff : (binary op l r).Uses x ↔ l.Uses x ∨ r.Uses x := by
  constructor
  · intro h
    cases h with
    | left _ _ h => exact .inl h
    | right _ _ h => exact .inr h
  · rintro (h | h)
    · exact .left op r h
    · exact .right op l h

theorem uses_function_iff : (function m ps b).Uses x ↔ declares ps x = false ∧ b.Uses x := by
  constructor
  · intro h
    cases h with
    | body _ hps h => exact ⟨hps, h⟩
  · exact fun ⟨hps, h⟩ => .body m hps h

theorem uses_call_iff : (call f args).Uses x ↔ ∃ a ∈ args, a.Uses x := by
  constructor
  · intro h
    cases h with
    | argument _ ha h => exact ⟨_, ha, h⟩
  · exact fun ⟨_, ha, h⟩ => .argument f ha h

theorem calls_binary_iff : (binary op l r).Calls x ↔ l.Calls x ∨ r.Calls x := by
  constructor
  · intro h
    cases h with
    | left _ _ h => exact .inl h
    | right _ _ h => exact .inr h
  · rintro (h | h)
    · exact .left op r h
    · exact .right op l h

theorem calls_function_iff : (function m ps b).Calls x ↔ declares ps x = false ∧ b.Calls x := by
  constructor
  · intro h
    cases h with
    | body _ hps h => exact ⟨hps, h⟩
  · exact fun ⟨hps, h⟩ => .body m hps h

theorem calls_call_iff : (call f args).Calls x ↔ f = x ∨ ∃ a ∈ args, a.Calls x := by
  constructor
  · intro h
    cases h with
    | callee => exact .inl rfl
    | argument _ ha h => exact .inr ⟨_, ha, h⟩
  · rintro (rfl | ⟨a, ha, h⟩)
    · exact .callee args
    · exact .argument f ha h

end Occurrences

variable {x : String}

/-- After a substitution a name is mentioned where it was called, and wherever what has replaced it
mentions it. -/
theorem mentions_substitute_iff (e r : Expr) :
    (substitute x r e).mentions x = true ↔ e.Calls x ∨ e.Uses x ∧ r.mentions x = true := by
  induction e using induct with
  | number y => exact iff_of_false Bool.false_ne_true (by rintro (h | ⟨h, -⟩) <;> cases h)
  | boolean b => exact iff_of_false Bool.false_ne_true (by rintro (h | ⟨h, -⟩) <;> cases h)
  | parameter p => exact iff_of_false Bool.false_ne_true (by rintro (h | ⟨h, -⟩) <;> cases h)
  | native c => exact iff_of_false Bool.false_ne_true (by rintro (h | ⟨h, -⟩) <;> cases h)
  | symbol n =>
    have hcalls : ¬ (symbol n).Calls x := by
      rintro ⟨⟩
    rw [substitute_symbol, uses_symbol_iff, iff_false_intro hcalls, false_or]
    by_cases hn : n = x <;> simp [hn, mentions]
  | binary op a b iha ihb =>
    rw [substitute_binary, mentions, Bool.or_eq_true, iha, ihb, calls_binary_iff, uses_binary_iff,
      or_and_right, or_or_or_comm]
  | function m ps b ih =>
    rw [substitute_function, calls_function_iff, uses_function_iff]
    cases hps : declares ps x with
    | true => simp [mentions, hps]
    | false => simp [mentions, hps, ih]
  | call f args ih =>
    have hargs : (∃ d ∈ args.map (substitute x r), d.mentions x = true) ↔
        (∃ a ∈ args, a.Calls x) ∨ (∃ a ∈ args, a.Uses x) ∧ r.mentions x = true := by
      simp only [List.mem_map, exists_exists_and_eq_and]
      constructor
      · rintro ⟨a, ha, h⟩
        exact ((ih a ha).mp h).imp (⟨a, ha, ·⟩) (.imp_left (⟨a, ha, ·⟩))
      · rintro (⟨a, ha, h⟩ | ⟨⟨a, ha, hu⟩, hr⟩)
        · exact ⟨a, ha, (ih a ha).mpr (.inl h)⟩
        · exact ⟨a, ha, (ih a ha).mpr (.inr ⟨hu, hr⟩)⟩
    rw [substitute_call, mentions, Bool.or_eq_true, beq_iff_eq, mentionsAny_eq_true_iff, hargs,
      calls_call_iff, uses_call_iff, or_assoc]

theorem replaceAll?_eq_none_iff {r : Expr} {es : List Expr} :
    replaceAll? x r es = none ↔ ∀ e ∈ es, replace? x r e = none := by
  induction es with
  | nil => simp [replaceAll?]
  | cons e es ih =>
    rw [List.forall_mem_cons, ← ih, replaceAll?]
    cases replace? x r e <;> cases replaceAll? x r es <;> simp

/-- Nothing is replaced exactly if the name is not used. -/
theorem replace?_eq_none_iff {r e : Expr} : replace? x r e = none ↔ ¬ e.Uses x := by
  induction e using induct with
  | number y => exact iff_of_true rfl nofun
  | boolean b => exact iff_of_true rfl nofun
  | parameter p => exact iff_of_true rfl nofun
  | native c => exact iff_of_true rfl nofun
  | symbol n =>
    rw [replace?, uses_symbol_iff]
    split <;> simp [*]
  | binary op a b iha ihb =>
    rw [uses_binary_iff, not_or, ← iha, ← ihb, replace?]
    cases replace? x r a <;> cases replace? x r b <;> simp
  | function m ps b ih =>
    rw [uses_function_iff, replace?]
    cases hps : declares ps x <;> simp [ih]
  | call f args ih =>
    rw [uses_call_iff, replace?, Option.map_eq_none_iff, replaceAll?_eq_none_iff, not_exists]
    exact forall_congr' fun a => (forall_congr' fun ha => ih a ha).trans not_and.symm

theorem substitute_of_not_uses {r e : Expr} (h : ¬ e.Uses x) : substitute x r e = e := by
  rw [substitute, replace?_eq_none_iff.mpr h, Option.getD_none]

/-- Where a name has been replaced, it is used only in what has replaced it. -/
theorem not_uses_substitute {r : Expr} (hr : ¬ r.Uses x) (e : Expr) :
    ¬ (substitute x r e).Uses x := by
  induction e using induct with
  | number y => exact nofun
  | boolean b => exact nofun
  | parameter p => exact nofun
  | native c => exact nofun
  | symbol n =>
    rw [substitute_symbol]
    split
    · exact hr
    · rwa [uses_symbol_iff]
  | binary op a b iha ihb =>
    rw [substitute_binary, uses_binary_iff]
    exact not_or.mpr ⟨iha, ihb⟩
  | function m ps b ih =>
    rw [substitute_function]
    split
    · rename_i hps
      simp [uses_function_iff, hps]
    · exact fun h => ih (uses_function_iff.mp h).2
  | call f args ih =>
    rw [substitute_call, uses_call_iff]
    rintro ⟨d, hd, h⟩
    obtain ⟨a, ha, rfl⟩ := List.mem_map.mp hd
    exact ih a ha h

end Expr

namespace Node

/-- Induction over nodes, from what is right below a node. -/
@[elab_as_elim]
theorem induct {P : Node → Prop} (node : ∀ e, (∀ c ∈ e.children, P c) → P e) (e : Node) : P e :=
  @Node.rec P (fun es => ∀ a ∈ es, P a) (fun _ _ => node _ nofun) (fun _ _ => node _ nofun)
    (fun _ _ => node _ nofun) (fun _ _ _ _ hl hr => node _ (by simp [children, hl, hr]))
    (fun _ _ => node _ nofun) (fun _ _ _ _ hb => node _ (by simp [children, hb]))
    (fun _ _ _ hargs => node _ hargs) (fun _ _ => node _ nofun) nofun
    (fun _ _ he hes => List.forall_mem_cons.mpr ⟨he, hes⟩) e

def Has (e d : Node) : Prop :=
  ∃ path, e.at? path = some d

theorem Has.self (e : Node) : e.Has e :=
  ⟨[], rfl⟩

theorem Has.of_child {e c d : Node} (hc : c ∈ e.children) (h : c.Has d) : e.Has d := by
  obtain ⟨i, hi, rfl⟩ := List.mem_iff_getElem.mp hc
  obtain ⟨path, h⟩ := h
  exact ⟨i :: path, by rw [at?, List.getElem?_eq_getElem hi, Option.bind_some, h]⟩

theorem exprs_eq (es : List Node) : exprs es = es.map expr := by
  induction es with
  | nil => rfl
  | cons e es ih => rw [exprs, ih, List.map_cons]

variable {x : String} {r : Node}

theorem substituteAll_of_unchanged {es : List Node}
    (h : ∀ e ∈ es, ∀ next, substitute x r next e = (e, next)) (next : Nat) :
    substituteAll x r next es = (es, next) := by
  induction es with
  | nil => rfl
  | cons e es ih =>
    obtain ⟨he, hes⟩ := List.forall_mem_cons.mp h
    simp only [substituteAll, he, ih hes]

/-- Where the name is not used, the node itself is the result, and nothing is made. -/
theorem substitute_of_not_uses {e : Node} (h : ¬ e.expr.Uses x) (next : Nat) :
    substitute x r next e = (e, next) := by
  induction e using induct generalizing next with
  | node e ih =>
    cases e with
    | number i y => rfl
    | boolean i b => rfl
    | parameter i p => rfl
    | native i c => rfl
    | symbol i n =>
      rw [expr, Expr.uses_symbol_iff] at h
      rw [substitute, if_neg h]
    | binary i op a b =>
      rw [expr, Expr.uses_binary_iff, not_or] at h
      simp only [substitute, ih a (by simp [children]) h.1, ih b (by simp [children]) h.2,
        and_self, if_true]
    | function i m ps b =>
      rw [substitute]
      split
      · rfl
      · rename_i hps
        have hb : ¬ b.expr.Uses x := fun hb =>
          h (Expr.uses_function_iff.mpr ⟨Bool.eq_false_of_not_eq_true hps, hb⟩)
        rw [ih b (by simp [children]) hb]
        exact if_pos rfl
    | call i f args =>
      rw [expr, Expr.uses_call_iff, exprs_eq] at h
      have hargs : ∀ a ∈ args, ∀ next, substitute x r next a = (a, next) :=
        fun a ha => ih a ha fun hu => h ⟨_, List.mem_map_of_mem ha, hu⟩
      rw [substitute, substituteAll_of_unchanged hargs]
      exact if_pos rfl

/-- The identities of the nodes of `e` are below the next free one, and a node of `e` with the identity
of `r` is `r`. -/
structure Allocated (e r : Node) (next : Nat) : Prop where
  below : ∀ d, e.Has d → d.id < next
  same : ∀ d, e.Has d → r.id = d.id → r = d

theorem Allocated.mono {e : Node} {next next' : Nat} (h : e.Allocated r next) (hle : next ≤ next') :
    e.Allocated r next' :=
  ⟨fun d hd => (h.below d hd).trans_le hle, h.same⟩

theorem Allocated.child {e c : Node} {next : Nat} (h : e.Allocated r next) (hc : c ∈ e.children) :
    c.Allocated r next :=
  ⟨fun d hd => h.below d (hd.of_child hc), fun d hd => h.same d (hd.of_child hc)⟩

/-- What stands in place of `e` when the symbol `x` has been replaced by `r`. -/
structure Replaced (x : String) (r e e' : Node) : Prop where
  expr_eq : e'.expr = Expr.substitute x r.expr e.expr
  eq_of_id : e'.id = e.id → e' = e
  id_ne : ¬ e.Has r → e.expr.Uses x → e'.id ≠ e.id
  shared : ∀ path d, e.at? path = some d → ¬ d.expr.Uses x → e'.at? path = some d

namespace Replaced

theorem of_not_uses {e : Node} (h : ¬ e.expr.Uses x) : Replaced x r e e :=
  ⟨(Expr.substitute_of_not_uses h).symm, fun _ => rfl, fun _ hu => absurd hu h, fun _ _ hd _ => hd⟩

theorem eq_of_not_uses {e e' : Node} (h : Replaced x r e e') (hu : ¬ e.expr.Uses x) : e' = e :=
  Option.some.inj (h.shared [] e rfl hu)

theorem map_expr {cs cs' : List Node} (h : List.Forall₂ (Replaced x r) cs cs') :
    cs'.map expr = (cs.map expr).map (Expr.substitute x r.expr) := by
  induction h with
  | nil => rfl
  | cons hc _ ih => rw [List.map_cons, hc.expr_eq, ih, List.map_cons, List.map_cons]

theorem eq_of_not_uses_all {cs cs' : List Node} (h : List.Forall₂ (Replaced x r) cs cs')
    (hu : ¬ ∃ c ∈ cs, c.expr.Uses x) : cs' = cs := by
  induction h with
  | nil => rfl
  | cons hc _ ih =>
    simp only [List.exists_mem_cons_iff, not_or] at hu
    rw [hc.eq_of_not_uses hu.1, ih hu.2]

theorem eq_of_map_id {cs cs' : List Node} (h : List.Forall₂ (Replaced x r) cs cs')
    (hids : cs'.map id = cs.map id) : cs' = cs := by
  induction h with
  | nil => rfl
  | cons hc _ ih =>
    obtain ⟨hid, hids⟩ := List.cons.inj hids
    rw [hc.eq_of_id hid, ih hids]

theorem map_id_ne {cs cs' : List Node} (h : List.Forall₂ (Replaced x r) cs cs')
    (hr : ∀ c ∈ cs, ¬ c.Has r) (hu : ∃ c ∈ cs, c.expr.Uses x) : cs'.map id ≠ cs.map id := by
  intro hids
  induction h with
  | nil => simp at hu
  | cons hc _ ih =>
    obtain ⟨hid, hids⟩ := List.cons.inj hids
    obtain ⟨hr, hrs⟩ := List.forall_mem_cons.mp hr
    rcases List.exists_mem_cons_iff .. |>.mp hu with hu | hu
    · exact hc.id_ne hr hu hid
    · exact ih hrs hu hids

theorem at?_of_children {cs cs' : List Node} (h : List.Forall₂ (Replaced x r) cs cs') {i : Nat}
    {path : List Nat} {d : Node} (hd : cs[i]?.bind (at? path) = some d) (hu : ¬ d.expr.Uses x) :
    cs'[i]?.bind (at? path) = some d := by
  induction h generalizing i with
  | nil => exact absurd hd nofun
  | cons hc _ ih =>
    cases i with
    | zero => exact hc.shared path d hd hu
    | succ i => exact ih hd

/-- A node is kept if the identities right below it are as before, and is made anew otherwise. -/
theorem rebuild {e e' : Node} {kept : Prop} [Decidable kept] {next after : Nat} (hle : next ≤ after)
    (hid : e'.id ≠ e.id) (hexpr : e'.expr = Expr.substitute x r.expr e.expr)
    (hcs : List.Forall₂ (Replaced x r) e.children e'.children)
    (hkept : kept ↔ e'.children.map id = e.children.map id)
    (huses : e.expr.Uses x ↔ ∃ c ∈ e.children, c.expr.Uses x)
    (hcongr : e'.children = e.children → e'.expr = e.expr) :
    next ≤ (if kept then (e, after) else (e', after + 1)).2 ∧
      Replaced x r e (if kept then (e, after) else (e', after + 1)).1 := by
  split
  · rename_i hids
    rw [hkept] at hids
    have heq := hcongr (eq_of_map_id hcs hids)
    refine ⟨hle, heq.symm.trans hexpr, fun _ => rfl, fun hr hu _ => ?_, fun _ _ hd _ => hd⟩
    exact map_id_ne hcs (fun c hc h => hr (h.of_child hc)) (huses.mp hu) hids
  · rename_i hids
    rw [hkept] at hids
    refine ⟨Nat.le_succ_of_le hle, hexpr, fun h => absurd h hid, fun _ _ => hid,
      fun path d hd hu => ?_⟩
    cases path with
    | nil =>
      -- Where the name is not used below the node either, no identity there would have changed.
      cases hd
      rw [huses] at hu
      exact absurd (congrArg _ (eq_of_not_uses_all hcs hu)) hids
    | cons i path => exact at?_of_children hcs hd hu

end Replaced

/-- Substitution in a list replaces in each of its nodes. -/
theorem substituteAll_replaced {es : List Node}
    (h : ∀ e ∈ es, ∀ next, e.Allocated r next →
      next ≤ (substitute x r next e).2 ∧ Replaced x r e (substitute x r next e).1)
    {next : Nat} (hes : ∀ e ∈ es, e.Allocated r next) :
    next ≤ (substituteAll x r next es).2 ∧
      List.Forall₂ (Replaced x r) es (substituteAll x r next es).1 := by
  induction es generalizing next with
  | nil => exact ⟨Nat.le_refl _, .nil⟩
  | cons e es ih =>
    obtain ⟨he, hes⟩ := List.forall_mem_cons.mp hes
    obtain ⟨h, hs⟩ := List.forall_mem_cons.mp h
    obtain ⟨hle, hreplaced⟩ := h next he
    obtain ⟨hle', hall⟩ := ih hs fun e he => (hes e he).mono hle
    exact ⟨hle.trans hle', .cons hreplaced hall⟩

/-- What substitution makes of a node stands in its place, and the next free identity does not go back. -/
theorem substitute_replaced (e : Node) {next : Nat} (h : e.Allocated r next) :
    next ≤ (substitute x r next e).2 ∧ Replaced x r e (substitute x r next e).1 := by
  induction e using induct generalizing next with
  | node e ih =>
    have hfresh : ∀ {next'}, next ≤ next' → next' ≠ e.id :=
      fun hle => ((h.below e (.self e)).trans_le hle).ne'
    cases e with
    | number i y => exact ⟨Nat.le_refl _, .of_not_uses nofun⟩
    | boolean i b => exact ⟨Nat.le_refl _, .of_not_uses nofun⟩
    | parameter i p => exact ⟨Nat.le_refl _, .of_not_uses nofun⟩
    | native i c => exact ⟨Nat.le_refl _, .of_not_uses nofun⟩
    | symbol i n =>
      rw [substitute]
      split
      · -- The replacement can have the identity of the symbol only if it is that symbol itself.
        rename_i hn
        refine ⟨Nat.le_refl _, ?_, h.same _ (.self _), fun hr _ hid => ?_, fun path d hd hu => ?_⟩
        · rw [expr, Expr.substitute_symbol, if_pos hn]
        · exact hr (h.same _ (.self _) hid ▸ .self _)
        · cases path with
          | nil =>
            cases hd
            exact absurd (Expr.uses_symbol_iff.mpr hn) hu
          | cons i path => cases hd
      · rename_i hn
        exact ⟨Nat.le_refl _, .of_not_uses (Expr.uses_symbol_iff.not.mpr hn)⟩
    | binary i op a b =>
      have ha := ih a (by simp [children]) (h.child (by simp [children]))
      rw [substitute]
      generalize substitute x r next a = made at ha ⊢
      obtain ⟨a', next₁⟩ := made
      obtain ⟨hle, ha⟩ := ha
      have hb := ih b (by simp [children]) ((h.child (by simp [children])).mono hle)
      simp only
      generalize substitute x r next₁ b = made at hb ⊢
      obtain ⟨b', next₂⟩ := made
      obtain ⟨hle', hb⟩ := hb
      have hid : (binary next₂ op a' b').id ≠ (binary i op a b).id := hfresh (hle.trans hle')
      exact Replaced.rebuild (hle.trans hle') hid
        (by rw [expr, expr, Expr.substitute_binary, ha.expr_eq, hb.expr_eq])
        (.cons ha (.cons hb .nil)) (by simp [children])
        (by simp [expr, children, Expr.uses_binary_iff]) (by simp +contextual [expr, children])
    | function i m ps b =>
      rw [substitute]
      split
      · rename_i hps
        refine ⟨Nat.le_refl _, .of_not_uses fun hu => ?_⟩
        rw [expr, Expr.uses_function_iff, hps] at hu
        cases hu.1
      · rename_i hps
        have hb := ih b (by simp [children]) (h.child (by simp [children]))
        generalize substitute x r next b = made at hb ⊢
        obtain ⟨b', next₁⟩ := made
        obtain ⟨hle, hb⟩ := hb
        have hid : (function next₁ m ps b').id ≠ (function i m ps b).id := hfresh hle
        exact Replaced.rebuild hle hid
          (by rw [expr, expr, Expr.substitute_function, if_neg hps, hb.expr_eq])
          (.cons hb .nil) (by simp [children])
          (by simp [expr, children, Expr.uses_function_iff, hps]) (by simp +contextual [expr, children])
    | call i f args =>
      have hargs := substituteAll_replaced (fun a ha _ h => ih a ha h) fun a ha => h.child ha
      rw [substitute]
      simp only [children] at hargs
      generalize substituteAll x r next args = made at hargs ⊢
      obtain ⟨args', next₁⟩ := made
      obtain ⟨hle, hargs⟩ := hargs
      have hid : (call next₁ f args').id ≠ (call i f args).id := hfresh hle
      exact Replaced.rebuild hle hid
        (by rw [expr, expr, Expr.substitute_call, exprs_eq, exprs_eq, Replaced.map_expr hargs])
        hargs .rfl (by simp [expr, exprs_eq, children, Expr.uses_call_iff])
        (by simp +contextual [expr, children])

/-- The nodes of an expression have identities from `lo` on and below `hi`. -/
def Within (lo hi : Nat) (e : Node) : Prop :=
  ∀ d, e.Has d → lo ≤ d.id ∧ d.id < hi

theorem Within.mono {lo lo' hi hi' : Nat} {e : Node} (h : e.Within lo hi) (hlo : lo' ≤ lo)
    (hhi : hi ≤ hi') : e.Within lo' hi' :=
  fun d hd => ⟨hlo.trans (h d hd).1, (h d hd).2.trans_le hhi⟩

/-- A node that is made after the nodes right below it. -/
theorem Within.of_children {lo : Nat} {e : Node} (hlo : lo ≤ e.id)
    (hc : ∀ c ∈ e.children, c.Within lo e.id) : e.Within lo (e.id + 1) := by
  rintro d ⟨path, hd⟩
  cases path with
  | nil =>
    cases hd
    exact ⟨hlo, Nat.lt_succ_self _⟩
  | cons i path =>
    obtain ⟨c, hi, hd⟩ := Option.bind_eq_some_iff.mp hd
    obtain ⟨hle, hlt⟩ := hc c (List.mem_of_getElem? hi) d ⟨path, hd⟩
    exact ⟨hle, hlt.trans (Nat.lt_succ_self _)⟩

theorem ofExprs_within {es : List Expr} (h : ∀ e ∈ es, ∀ next, (ofExpr next e).1.expr = e ∧
      next ≤ (ofExpr next e).2 ∧ (ofExpr next e).1.Within next (ofExpr next e).2) (next : Nat) :
    exprs (ofExprs next es).1 = es ∧ next ≤ (ofExprs next es).2 ∧
      ∀ d ∈ (ofExprs next es).1, d.Within next (ofExprs next es).2 := by
  induction es generalizing next with
  | nil => exact ⟨rfl, Nat.le_refl _, nofun⟩
  | cons e es ih =>
    obtain ⟨h, hs⟩ := List.forall_mem_cons.mp h
    obtain ⟨hexpr, hle, hwithin⟩ := h next
    obtain ⟨hexprs, hle', hall⟩ := ih hs (ofExpr next e).2
    refine ⟨congrArg₂ _ hexpr hexprs, hle.trans hle', List.forall_mem_cons.mpr ⟨?_, fun d hd => ?_⟩⟩
    · exact hwithin.mono (Nat.le_refl _) hle'
    · exact (hall d hd).mono hle (Nat.le_refl _)

/-- What is read is the expression, and its nodes are new. -/
theorem ofExpr_within (e : Expr) (next : Nat) :
    (ofExpr next e).1.expr = e ∧ next ≤ (ofExpr next e).2 ∧
      (ofExpr next e).1.Within next (ofExpr next e).2 := by
  induction e using Expr.induct generalizing next with
  | number y => exact ⟨rfl, Nat.le_succ _, .of_children (Nat.le_refl _) nofun⟩
  | boolean b => exact ⟨rfl, Nat.le_succ _, .of_children (Nat.le_refl _) nofun⟩
  | symbol n => exact ⟨rfl, Nat.le_succ _, .of_children (Nat.le_refl _) nofun⟩
  | parameter p => exact ⟨rfl, Nat.le_succ _, .of_children (Nat.le_refl _) nofun⟩
  | native c => exact ⟨rfl, Nat.le_succ _, .of_children (Nat.le_refl _) nofun⟩
  | binary op a b iha ihb =>
    obtain ⟨ha, hle, hwa⟩ := iha next
    obtain ⟨hb, hle', hwb⟩ := ihb (ofExpr next a).2
    have hnext := hle.trans hle'
    refine ⟨congrArg₂ _ ha hb, Nat.le_succ_of_le hnext, .of_children hnext ?_⟩
    exact List.forall_mem_cons.mpr ⟨hwa.mono (Nat.le_refl _) hle',
      List.forall_mem_singleton.mpr (hwb.mono hle (Nat.le_refl _))⟩
  | function m ps b ih =>
    obtain ⟨hb, hle, hwb⟩ := ih next
    refine ⟨congrArg _ hb, Nat.le_succ_of_le hle, .of_children hle ?_⟩
    exact List.forall_mem_singleton.mpr hwb
  | call f args ih =>
    obtain ⟨hargs, hle, hall⟩ := ofExprs_within ih next
    exact ⟨congrArg _ hargs, Nat.le_succ_of_le hle, .of_children hle hall⟩

/-- Of two expressions that are read one after the other, the second is not a node of the first. -/
theorem allocated_ofExpr (e r : Expr) (next : Nat) :
    let (d, next) := ofExpr next e
    let (t, next) := ofExpr next r
    d.expr = e ∧ t.expr = r ∧ d.Allocated t next ∧ ¬ d.Has t := by
  obtain ⟨he, -, hwe⟩ := ofExpr_within e next
  obtain ⟨hr, hle, hwr⟩ := ofExpr_within r (ofExpr next e).2
  have hnot : ∀ c, (ofExpr next e).1.Has c → (ofExpr (ofExpr next e).2 r).1.id ≠ c.id :=
    fun c hc => ((hwe c hc).2.trans_le (hwr _ (.self _)).1).ne'
  exact ⟨he, hr, ⟨fun c hc => (hwe c hc).2.trans_le hle, fun c hc h => absurd h (hnot c hc)⟩,
    fun h => hnot _ h rfl⟩

/-- After a substitution a name is mentioned where it was called, and where it was used if what has
replaced it mentions it.  In memory the result is the very same node if the name was not used, and, when
what replaces it is not a node of the expression, only then; what does not use the name is shared where
it was.  If what has replaced the name does not use it, another substitution changes nothing. -/
theorem substitute_sharing {e r : Node} {next : Nat} (h : e.Allocated r next) (x : String) :
    let e' := (substitute x r next e).1
    (∀ d t : Expr, (Expr.substitute x t d).mentions x = true ↔
      d.Calls x ∨ d.Uses x ∧ t.mentions x = true) ∧
    e'.expr = Expr.substitute x r.expr e.expr ∧
    (e'.id = e.id → e' = e) ∧
    (¬ e.Has r → (e'.id = e.id ↔ ¬ e.expr.Uses x)) ∧
    (∀ path d, e.at? path = some d → ¬ d.expr.Uses x → e'.at? path = some d) ∧
    (¬ r.expr.Uses x → ∀ r' next', substitute x r' next' e' = (e', next')) := by
  intro e'
  obtain ⟨-, hreplaced⟩ := substitute_replaced (x := x) e h
  refine ⟨Expr.mentions_substitute_iff, hreplaced.expr_eq, hreplaced.eq_of_id, fun hr => ?_,
    hreplaced.shared, fun hr r' next' => substitute_of_not_uses ?_ next'⟩
  · refine ⟨fun hid hu => hreplaced.id_ne hr hu hid, fun hu => ?_⟩
    exact congrArg id (hreplaced.eq_of_not_uses hu)
  · rw [hreplaced.expr_eq]
    exact Expr.not_uses_substitute hr e.expr

/-- In `f(1 + 2, x)` the sum is shared, and a second substitution changes nothing. -/
theorem substitute_sharing_call :
    let e : Expr := .call "f" [.binary .add (.number 1.0) (.number 2.0), .symbol "x"]
    let (d, next) := ofExpr 0 e
    let (t, next) := ofExpr next (.number 0.0)
    let d' := (substitute "x" t next d).1
    d.Allocated t next ∧ d'.id ≠ d.id ∧ d'.at? [0] = d.at? [0] ∧
      d'.expr = .call "f" [.binary .add (.number 1.0) (.number 2.0), .number 0.0] ∧
      substitute "x" d next d' = (d', next) := by
  intro e
  obtain ⟨-, -, hallocated, hapart⟩ := allocated_ofExpr e (.number 0.0) 0
  obtain ⟨-, hexpr, -, hid, hshared, hagain⟩ := substitute_sharing hallocated "x"
  have huses : e.Uses "x" := .argument "f" (.tail _ (.head _)) .symbol
  have hsum : ¬ Expr.Uses "x" (.binary .add (.number 1.0) (.number 2.0)) := by
    simp only [Expr.uses_binary_iff, not_or]
    exact ⟨nofun, nofun⟩
  exact ⟨hallocated, fun h => (hid hapart).mp h huses, hshared [0] _ rfl hsum, hexpr,
    hagain nofun _ _⟩

end Node

end Reckoner
