import Mathlib
import Reckoner.Proofs.Scope.Lookup
import Reckoner.Scope.Walk

/-! # Stores that grow

Every table of a store is opened inside an earlier one, so a walk outward ends, and what it meets does
not depend on tables that are opened later.  The scope of a place, without its places, is what lookups
from there go by.
-/
namespace Reckoner

namespace Store

/-- Every table stands after the table around it. -/
def Ordered (s : Store) : Prop :=
  ∀ (p : Nat) (t : StoredTable) (parent : Nat),
    s.tables[p]? = some t → t.parent = some parent → parent < p

/-- The second store has the tables of the first as they were, and maybe more after them. -/
structure Grows (s s' : Store) : Prop where
  size_le : s.size ≤ s'.size
  same : ∀ p < s.size, s'.tables[p]? = s.tables[p]?

variable {base s s' : Store}

theorem Grows.refl (s : Store) : s.Grows s :=
  ⟨Nat.le_refl _, fun _ _ => rfl⟩

theorem Grows.trans {s'' : Store} (h : s.Grows s') (h' : s'.Grows s'') : s.Grows s'' :=
  ⟨h.size_le.trans h'.size_le, fun p hp => (h'.same p (hp.trans_le h.size_le)).trans (h.same p hp)⟩

theorem lt_size_of_getElem? {p : Nat} {t : StoredTable} (h : s.tables[p]? = some t) : p < s.size :=
  (Array.getElem?_eq_some_iff.mp h).1

theorem exists_table {p : Nat} (h : p < s.size) : ∃ t, s.tables[p]? = some t :=
  ⟨s.tables[p], Array.getElem?_eq_getElem h⟩

section Operations

@[simp] theorem size_add (s : Store) (t : StoredTable) : (s.add t).size = s.size + 1 :=
  Array.size_push t

theorem tables_add (s : Store) (t : StoredTable) (p : Nat) :
    (s.add t).tables[p]? = if p = s.size then some t else s.tables[p]? :=
  Array.getElem?_push

theorem grows_add (s : Store) (t : StoredTable) : s.Grows (s.add t) := by
  refine ⟨by simp, fun p hp => ?_⟩
  rw [tables_add, if_neg hp.ne]

theorem Ordered.add (h : s.Ordered) {t : StoredTable} (ht : ∀ p, t.parent = some p → p < s.size) :
    (s.add t).Ordered := by
  intro p u parent hu hparent
  rw [tables_add] at hu
  split at hu
  · cases hu
    rename_i hp
    exact hp ▸ ht parent hparent
  · exact h p u parent hu hparent

@[simp] theorem size_modify (s : Store) (p : Nat) (change : Table → Table) :
    (s.modify p change).size = s.size :=
  Array.size_modify

theorem tables_modify (s : Store) (p : Nat) (change : Table → Table) (q : Nat) :
    (s.modify p change).tables[q]? =
      if p = q then (s.tables[q]?).map fun t => { t with table := change t.table }
      else s.tables[q]? :=
  Array.getElem?_modify

theorem Ordered.modify (h : s.Ordered) (p : Nat) (change : Table → Table) :
    (s.modify p change).Ordered := by
  intro q u parent hu hparent
  rw [tables_modify] at hu
  split at hu
  · obtain ⟨t, ht, rfl⟩ := Option.map_eq_some_iff.mp hu
    exact h q t parent ht hparent
  · exact h q u parent hu hparent

/-- A change to a table that is not in the base leaves the base as it was. -/
theorem Grows.modify (h : base.Grows s) {p : Nat} (hp : base.size ≤ p) (change : Table → Table) :
    base.Grows (s.modify p change) := by
  refine ⟨by simpa using h.size_le, fun q hq => ?_⟩
  rw [tables_modify, if_neg (by omega)]
  exact h.same q hq

end Operations

section Walks

/-- The walk outward never has to be cut off. -/
theorem Ordered.scope_eq (h : s.Ordered) {p : Nat} {t : StoredTable} (ht : s.tables[p]? = some t) :
    s.scope p = ⟨t.purpose, t.table, some p⟩ :: t.parent.elim [] s.scope := by
  rw [scope, ht]
  cases hparent : t.parent with
  | none => simp [hparent]
  | some parent => simp [hparent, h p t parent ht hparent]

theorem Ordered.find?_eq (h : s.Ordered) {p : Nat} {t : StoredTable} (ht : s.tables[p]? = some t)
    (n : String) :
    s.find? p n = match t.table.get? n with
      | some e => some (e, p)
      | none => t.parent.bind fun parent => s.find? parent n := by
  rw [find?, ht]
  cases hn : t.table.get? n with
  | some e => simp [hn]
  | none =>
    cases hparent : t.parent with
    | none => simp [hn, hparent]
    | some parent => simp [hn, hparent, h p t parent ht hparent]

/-- The scope of a place is at home there. -/
theorem Ordered.house_scope (h : s.Ordered) {p : Nat} (hp : p < s.size) :
    s.house (s.scope p) = (s, p) := by
  obtain ⟨t, ht⟩ := exists_table hp
  rw [h.scope_eq ht]
  rfl

/-- The frames of the scope of a place have places of the store. -/
theorem Ordered.home_lt (h : s.Ordered) {p : Nat} (hp : p < s.size) :
    ∀ f ∈ s.scope p, ∀ q ∈ f.home, q < s.size := by
  induction p using Nat.strong_induction_on with
  | _ p ih =>
    obtain ⟨t, ht⟩ := exists_table hp
    rw [h.scope_eq ht]
    intro f hf q hq
    rcases List.mem_cons.mp hf with rfl | hf
    · cases hq
      exact hp
    · cases hparent : t.parent with
      | none =>
        rw [hparent] at hf
        cases hf
      | some parent =>
        rw [hparent] at hf
        have hlt := h p t parent ht hparent
        exact ih parent hlt (hlt.trans hp) f hf q hq

/-- Frames without places get new ones, inside those that the others have. -/
theorem Ordered.adopt (h : s.Ordered) {scope : Scope}
    (hscope : ∀ f ∈ scope, ∀ p ∈ f.home, p < s.size) :
    s.Grows (s.adopt scope).1 ∧ (s.adopt scope).1.Ordered ∧
      ∀ p ∈ (s.adopt scope).2, p < (s.adopt scope).1.size := by
  induction scope with
  | nil => exact ⟨.refl s, h, fun _ hp => nomatch hp⟩
  | cons f outer ih =>
    cases hhome : f.home with
    | some place =>
      simp only [Store.adopt, hhome]
      refine ⟨.refl s, h, ?_⟩
      rintro _ ⟨⟩
      exact hscope f List.mem_cons_self place hhome
    | none =>
      obtain ⟨hgrows, hordered, hlt⟩ := ih fun g hg => hscope g (List.mem_cons_of_mem f hg)
      simp only [Store.adopt, hhome]
      refine ⟨hgrows.trans (grows_add _ _), hordered.add hlt, ?_⟩
      rintro _ ⟨⟩
      simp

theorem Ordered.house (h : s.Ordered) {scope : Scope}
    (hscope : ∀ f ∈ scope, ∀ p ∈ f.home, p < s.size) :
    s.Grows (s.house scope).1 ∧ (s.house scope).1.Ordered ∧
      (s.house scope).2 < (s.house scope).1.size := by
  obtain ⟨hgrows, hordered, hlt⟩ := h.adopt hscope
  rw [Store.house]
  rcases hadopt : s.adopt scope with ⟨s', place⟩
  rw [hadopt] at hgrows hordered hlt
  cases place with
  | some place => exact ⟨hgrows, hordered, hlt place rfl⟩
  | none =>
    have hroot : s'.addRoot.Ordered := hordered.add fun p hp => nomatch hp
    exact ⟨hgrows.trans (grows_add s' _), hroot, by simp [addRoot]⟩

/-- The scope of a place is what it was before the store grew. -/
theorem Grows.scope_eq (h : s.Grows s') (hs : s.Ordered) (hs' : s'.Ordered) {p : Nat}
    (hp : p < s.size) : s'.scope p = s.scope p := by
  induction p using Nat.strong_induction_on with
  | _ p ih =>
    obtain ⟨t, ht⟩ := exists_table hp
    rw [hs.scope_eq ht, hs'.scope_eq ((h.same p hp).trans ht)]
    cases hparent : t.parent with
    | none => rfl
    | some parent =>
      have hlt := hs p t parent ht hparent
      rw [Option.elim_some, Option.elim_some, ih parent hlt (hlt.trans hp)]

end Walks

end Store

namespace Scope

/-- A scope without the places of its frames. -/
def bare (s : Scope) : Scope :=
  s.map fun f => { f with home := none }

@[simp] theorem bare_nil : bare [] = [] := rfl

@[simp] theorem bare_cons (f : Frame) (outer : Scope) :
    bare (f :: outer) = { f with home := none } :: bare outer := rfl

@[simp] theorem bare_declare (s : Scope) (ps : List Parameter) :
    (s.declare ps).bare = s.bare.declare ps := rfl

theorem size_bare (s : Scope) : s.bare.size = s.size := by
  induction s with
  | nil => rfl
  | cons f outer ih =>
    rw [bare_cons, size, size, List.foldr_cons, List.foldr_cons]
    exact congrArg _ ih

theorem visibleNames_bare (s : Scope) : s.bare.visibleNames = s.visibleNames := by
  induction s with
  | nil => rfl
  | cons f outer ih => rw [bare_cons, visibleNames, visibleNames, ih]

theorem suggest?_bare (s : Scope) (n : String) : s.bare.suggest? n = s.suggest? n := by
  rw [suggest?, suggest?, visibleNames_bare]

theorem owner?_bare (s : Scope) (n : String) :
    s.bare.owner? n = (s.owner? n).map fun (e, owner) => (e, owner.bare) := by
  induction s with
  | nil => rfl
  | cons f outer ih =>
    cases hn : f.table.get? n with
    | some e =>
      rw [owner?_cons_of_some hn, bare_cons, owner?_cons_of_some (f := { f with home := none }) hn]
      rfl
    | none =>
      rw [owner?_cons_of_none hn, bare_cons, owner?_cons_of_none (f := { f with home := none }) hn, ih]

theorem readingScope_bare (s : Scope) (owner : Scope) :
    s.bare.readingScope owner.bare = (s.readingScope owner).bare := by
  match owner with
  | [] => rfl
  | [f] =>
    simp only [bare_cons, bare_nil, readingScope]
    split <;> rfl
  | f :: g :: outer =>
    simp only [bare_cons, readingScope]
    split <;> rfl

theorem resolve?_bare (s : Scope) (n : String) :
    s.bare.resolve? n = (s.resolve? n).map fun (e, env) => (e, env.bare) := by
  rw [resolve?, resolve?, owner?_bare]
  cases s.owner? n with
  | none => rfl
  | some found => simp [readingScope_bare]

end Scope

namespace Store

variable {s s' : Store}

/-- The scope of a place as lookups go by it. -/
def view (s : Store) (place : Nat) : Scope :=
  (s.scope place).bare

theorem size_view (s : Store) (p : Nat) : (s.view p).size = (s.scope p).size :=
  Scope.size_bare _

theorem suggest?_view (s : Store) (p : Nat) (n : String) :
    (s.view p).suggest? n = (s.scope p).suggest? n :=
  Scope.suggest?_bare _ n

theorem Ordered.view_eq (h : s.Ordered) {p : Nat} {t : StoredTable} (ht : s.tables[p]? = some t) :
    s.view p = ⟨t.purpose, t.table, none⟩ :: t.parent.elim [] s.view := by
  rw [view, h.scope_eq ht, Scope.bare_cons]
  cases t.parent <;> rfl

theorem Grows.view_eq (h : s.Grows s') (hs : s.Ordered) (hs' : s'.Ordered) {p : Nat}
    (hp : p < s.size) : s'.view p = s.view p :=
  congrArg Scope.bare (h.scope_eq hs hs' hp)

/-- The walk from a place finds what the scope of the place has nearest, at a place of the store. -/
theorem Ordered.owner?_view (h : s.Ordered) {p : Nat} (hp : p < s.size) (n : String) :
    (s.view p).owner? n = (s.find? p n).map (fun (e, owner) => (e, s.view owner)) ∧
      ∀ e owner, s.find? p n = some (e, owner) → owner < s.size := by
  induction p using Nat.strong_induction_on with
  | _ p ih =>
    obtain ⟨t, ht⟩ := exists_table hp
    rw [h.find?_eq ht, h.view_eq ht]
    cases hn : t.table.get? n with
    | some e =>
      rw [Scope.owner?_cons_of_some hn]
      refine ⟨by simp [h.view_eq ht], ?_⟩
      rintro _ _ ⟨⟩
      exact hp
    | none =>
      rw [Scope.owner?_cons_of_none hn]
      cases hparent : t.parent with
      | none => exact ⟨rfl, by simp⟩
      | some parent =>
        have hlt := h p t parent ht hparent
        exact ih parent hlt (hlt.trans hp)

theorem Ordered.readingScope_view (h : s.Ordered) {start owner : Nat} (hstart : start < s.size)
    (howner : owner < s.size) :
    (s.view start).readingScope (s.view owner) = s.view (s.readingPlace start owner) ∧
      s.readingPlace start owner < s.size := by
  obtain ⟨t, ht⟩ := exists_table howner
  have hview := h.view_eq ht
  simp only [readingPlace, ht]
  by_cases hpurpose : t.purpose = .activation
  · rw [if_pos hpurpose]
    cases hparent : t.parent with
    | none =>
      rw [hparent, Option.elim_none] at hview
      exact ⟨by simp [Scope.readingScope, hview, hpurpose], howner⟩
    | some parent =>
      have hlt := (h owner t parent ht hparent).trans howner
      obtain ⟨u, hu⟩ := exists_table hlt
      rw [hparent, Option.elim_some, h.view_eq hu] at hview
      exact ⟨by simp [Scope.readingScope, hview, hpurpose, h.view_eq hu], hlt⟩
  · rw [if_neg hpurpose, hview]
    refine ⟨?_, hstart⟩
    cases t.parent.elim [] s.view <;> exact if_neg hpurpose

/-- The walk from a place reads a name where the scope of the place has it read. -/
theorem Ordered.resolve?_view (h : s.Ordered) {p : Nat} (hp : p < s.size) (n : String) :
    (s.view p).resolve? n = (s.read? p n).map (fun (e, env) => (e, s.view env)) ∧
      ∀ e env, s.read? p n = some (e, env) → env < s.size := by
  obtain ⟨howner, hlt⟩ := h.owner?_view hp n
  rw [Scope.resolve?, howner, read?]
  cases hfind : s.find? p n with
  | none => exact ⟨rfl, by simp⟩
  | some found =>
    obtain ⟨e, owner⟩ := found
    have howner := hlt e owner hfind
    obtain ⟨t, ht⟩ := exists_table howner
    have hread := h.readingScope_view hp howner
    refine ⟨by simp [hread.1], ?_⟩
    rintro _ _ ⟨⟩
    exact hread.2

section Opening

theorem Grows.putAll {base : Store} {p : Nat} (hp : base.size ≤ p)
    (bindings : List (String × Expr)) (h : base.Grows s) : base.Grows (s.putAll p bindings) := by
  induction bindings generalizing s with
  | nil => exact h
  | cons b bindings ih => exact ih (h.modify hp _)

theorem Ordered.putAll (h : s.Ordered) (p : Nat) (bindings : List (String × Expr)) :
    (s.putAll p bindings).Ordered := by
  induction bindings generalizing s with
  | nil => exact h
  | cons b bindings ih => exact ih (h.modify p _)

theorem size_putAll (s : Store) (p : Nat) (bindings : List (String × Expr)) :
    (s.putAll p bindings).size = s.size := by
  induction bindings generalizing s with
  | nil => rfl
  | cons b bindings ih => exact (ih (s.put p b.1 b.2)).trans (size_modify s p _)

theorem tables_putAll {p : Nat} {t : StoredTable} (ht : s.tables[p]? = some t)
    (bindings : List (String × Expr)) :
    (s.putAll p bindings).tables[p]? = some { t with table := t.table.insertAll bindings } := by
  induction bindings generalizing s t with
  | nil => exact ht
  | cons b bindings ih =>
    refine ih (s := s.put p b.1 b.2) (t := { t with table := t.table.insert b.1 b.2 }) ?_
    rw [put, tables_modify, if_pos rfl, ht]
    rfl

/-- What is opened inside a place is a frame before the scope of that place, and nothing else
changes. -/
theorem Ordered.opened (h : s.Ordered) {p : Nat} (hp : p < s.size) (purpose : Purpose)
    (bindings : List (String × Expr)) :
    let s' := (s.addChild p purpose).putAll s.size bindings
    s.Grows s' ∧ s'.Ordered ∧ s.size < s'.size ∧
      s'.view s.size = ⟨purpose, .ofList bindings, none⟩ :: s.view p := by
  intro s'
  have hchild : (s.addChild p purpose).Ordered := h.add fun q hq => by
    cases hq
    exact hp
  have hgrows : s.Grows s' := .putAll (Nat.le_refl _) bindings (grows_add _ _)
  have hordered : s'.Ordered := hchild.putAll _ _
  have htable : s'.tables[s.size]? = some ⟨purpose, some p, .ofList bindings⟩ :=
    tables_putAll ((tables_add _ _ _).trans (if_pos rfl)) bindings
  refine ⟨hgrows, hordered, lt_size_of_getElem? htable, ?_⟩
  rw [hordered.view_eq htable, Option.elim_some, hgrows.view_eq h hordered hp]

end Opening

end Store

namespace Kept

/-- A value that is kept at a place of a store, if it is kept at one. -/
def In (s : Store) (k : Kept) : Prop :=
  ∀ p ∈ k.place?, p < s.size

variable {s s' : Store} {k : Kept}

theorem In.grow (h : k.In s) (hgrows : s.Grows s') : k.In s' :=
  fun p hp => (h p hp).trans_le hgrows.size_le

end Kept

end Reckoner
