import Mathlib
import Reckoner.Proofs.Scope.Reachable

/-! # Updates of a store and what lookups find

A binding that is made or removed in one table is noticed from the tables through which a lookup gets to
it: those inside it from which no nearer table binds the name.  From everywhere else, and for every
other name, lookups find what they found before.
-/
namespace Reckoner

namespace Store

variable {s : Store} {p q : Nat} {n : String}

/-- On the way outward from a place stands the table at `p`, and none before it binds the name. -/
inductive InSight (s : Store) (n : String) (p : Nat) : Nat → Prop where
  | here : InSight s n p p
  | outward {q parent : Nat} (hn : (s.table q).get? n = none) (hparent : s.parent? q = some parent)
      (h : InSight s n p parent) : InSight s n p q

theorem table_of_table {t : StoredTable} (h : s.tables[p]? = some t) : s.table p = t.table := by
  rw [table, h, Option.map_some, Option.getD_some]

theorem exists_table_of_parent? {parent : Nat} (h : s.parent? p = some parent) :
    ∃ t, s.tables[p]? = some t ∧ t.parent = some parent :=
  Option.bind_eq_some_iff.mp h

namespace Ordered

theorem inSight_le (hs : s.Ordered) (h : s.InSight n p q) : p ≤ q := by
  induction h with
  | here => exact Nat.le_refl p
  | outward _ hparent _ ih => exact ih.trans (hs.parent?_lt hparent).le

/-- What is found stands at the place of the lookup or further out. -/
theorem owner_le (hs : s.Ordered) {e : Expr} {owner : Nat} (h : s.find? q n = some (e, owner)) :
    owner ≤ q := by
  induction q using Nat.strong_induction_on with
  | _ q ih =>
    cases ht : s.tables[q]? with
    | none =>
      rw [find?, ht] at h
      cases h
    | some t =>
      rw [hs.find?_eq ht] at h
      split at h
      · cases h
        exact Nat.le_refl _
      · obtain ⟨parent, hparent, h⟩ := Option.bind_eq_some_iff.mp h
        have hlt := hs q t parent ht hparent
        exact (ih parent hlt h).trans hlt.le

/-- Lookups from a place agree if the tables there agree on the name, and the lookups from the tables
around them do where these do not bind it. -/
theorem find?_congr {s' : Store} (hs : s.Ordered) (hs' : s'.Ordered) {t t' : StoredTable}
    (ht : s.tables[q]? = some t) (ht' : s'.tables[q]? = some t')
    (hown : t'.table.get? n = t.table.get? n)
    (hrest : t.table.get? n = none → (t'.parent.bind fun parent => s'.find? parent n) =
      t.parent.bind fun parent => s.find? parent n) : s'.find? q n = s.find? q n := by
  rw [hs'.find?_eq ht', hs.find?_eq ht, hown]
  cases hn : t.table.get? n with
  | some e => rfl
  | none => exact hrest hn

/-- A table binds a name itself exactly if a lookup from it finds the binding there. -/
theorem get?_table_iff (hs : s.Ordered) (hp : p < s.size) {e : Expr} :
    (s.table p).get? n = some e ↔ s.find? p n = some (e, p) := by
  obtain ⟨t, ht⟩ := exists_table hp
  rw [table_of_table ht, hs.find?_eq ht]
  cases hn : t.table.get? n with
  | some d => simp
  | none =>
    refine ⟨fun h => absurd h nofun, fun h => ?_⟩
    obtain ⟨parent, hparent, h⟩ := Option.bind_eq_some_iff.mp h
    exact absurd (hs.owner_le h) (Nat.not_le.mpr (hs p t parent ht hparent))

end Ordered

/-! ### A table is changed -/

section Changes

variable {change : Table → Table}

theorem tables_modify_of_ne (h : p ≠ q) : (s.modify p change).tables[q]? = s.tables[q]? := by
  rw [tables_modify, if_neg h]

theorem tables_modify_self {t : StoredTable} (h : s.tables[p]? = some t) :
    (s.modify p change).tables[p]? = some { t with table := change t.table } := by
  rw [tables_modify, if_pos rfl, h, Option.map_some]

/-- A name is found as before if the change leaves its binding alone, or if the changed table is out of
sight. -/
theorem Ordered.find?_modify_of_unaffected (hs : s.Ordered) {m : String}
    (h : m = n → ¬ s.InSight n p q)
    (hchange : ∀ t : Table, m ≠ n → (change t).get? m = t.get? m) :
    (s.modify p change).find? q m = s.find? q m := by
  induction q using Nat.strong_induction_on with
  | _ q ih =>
    cases ht : s.tables[q]? with
    | none =>
      have ht' : (s.modify p change).tables[q]? = none := by
        rw [tables_modify, ht, Option.map_none, ite_self]
      rw [find?, find?, ht, ht']
    | some t =>
      -- A nearer binding ends the walk, and without one the table is as far out of sight from the parent.
      have hrest (hn : t.table.get? m = none) :
          (t.parent.bind fun parent => (s.modify p change).find? parent m) =
            t.parent.bind fun parent => s.find? parent m := by
        refine Option.bind_congr fun parent hparent => ih parent (hs q t parent ht hparent) ?_
        rintro rfl hinner
        rw [← table_of_table ht] at hn
        exact h rfl (.outward hn ((parent?_of_table ht).trans hparent) hinner)
      by_cases hpq : p = q
      · subst hpq
        have hm : m ≠ n := fun hm => h hm .here
        exact hs.find?_congr (hs.modify p change) ht (tables_modify_self ht) (hchange t.table hm) hrest
      · exact hs.find?_congr (hs.modify p change) ht ((tables_modify_of_ne hpq).trans ht) rfl hrest

/-- Where the changed table is in sight, the name is looked up there. -/
theorem Ordered.find?_modify_of_inSight (hs : s.Ordered) (h : s.InSight n p q) :
    (s.modify p change).find? q n = (s.modify p change).find? p n := by
  induction h with
  | here => rfl
  | @outward q parent hn hparent h ih =>
    obtain ⟨t, ht, htp⟩ := exists_table_of_parent? hparent
    have hpq : p ≠ q := ((hs.inSight_le h).trans_lt (hs.parent?_lt hparent)).ne
    rw [table_of_table ht] at hn
    rw [(hs.modify p change).find?_eq ((tables_modify_of_ne hpq).trans ht), hn, htp]
    exact ih

/-- From the changed table the name is looked up in it as it is now, and further out as before. -/
theorem Ordered.find?_modify_self (hs : s.Ordered) (hp : p < s.size) :
    (s.modify p change).find? p n = (((change (s.table p)).get? n).map (·, p)).or
      ((s.parent? p).bind fun parent => s.find? parent n) := by
  obtain ⟨t, ht⟩ := exists_table hp
  have hrest : (t.parent.bind fun parent => (s.modify p change).find? parent n) =
      t.parent.bind fun parent => s.find? parent n := by
    refine Option.bind_congr fun parent hparent => hs.find?_modify_of_unaffected (n := n)
      (fun _ h => ?_) fun _ hne => absurd rfl hne
    exact absurd (hs.inSight_le h) (Nat.not_le.mpr (hs p t parent ht hparent))
  rw [(hs.modify p change).find?_eq (tables_modify_self ht), hrest, table_of_table ht,
    parent?_of_table ht]
  cases (change t.table).get? n <;> rfl

end Changes

/-- The walk outward, and the scope of a place, give the same answers to lookups. -/
theorem Ordered.owner?_eq (hs : s.Ordered) (q : Nat) (n : String) :
    s.owner? q n = (s.find? q n).map fun (e, owner) => (e, some owner) := by
  induction q using Nat.strong_induction_on with
  | _ q ih =>
    cases ht : s.tables[q]? with
    | none =>
      rw [owner?, find?, scope, ht]
      rfl
    | some t =>
      rw [owner?, hs.scope_eq ht, hs.find?_eq ht]
      cases hn : t.table.get? n with
      | some e =>
        rw [Scope.owner?_cons_of_some hn]
        rfl
      | none =>
        rw [Scope.owner?_cons_of_none hn]
        cases hparent : t.parent with
        | none => rfl
        | some parent => exact ih parent (hs q t parent ht hparent)

/-- After a name is bound in a table, it has this binding wherever the table is in sight; after it is
removed there, it has the next binding further out.  Other names, and places out of sight of the table,
find what they found before.  What is removed is the binding that the table has itself. -/
theorem Ordered.owner?_update (hs : s.Ordered) (hp : p < s.size) (n : String) (e : Expr) :
    (∀ q, s.InSight n p q →
      (s.put p n e).owner? q n = some (e, some p) ∧
      (s.take p n).2.owner? q n = (s.parent? p).bind fun parent => s.owner? parent n) ∧
    (∀ q m, (m = n → ¬ s.InSight n p q) →
      (s.put p n e).owner? q m = s.owner? q m ∧ (s.take p n).2.owner? q m = s.owner? q m) ∧
    ∀ d, (s.take p n).1 = some d ↔ s.owner? p n = some (d, some p) := by
  have hput := (hs.modify p (·.insert n e)).owner?_eq
  have htake := (hs.modify p (·.erase n)).owner?_eq
  refine ⟨fun q h => ⟨?_, ?_⟩, fun q m h => ⟨?_, ?_⟩, fun d => ?_⟩
  · rw [put, hput, hs.find?_modify_of_inSight h, hs.find?_modify_self hp, Table.get?_insert,
      if_pos rfl]
    rfl
  · rw [take, remove, htake, hs.find?_modify_of_inSight h, hs.find?_modify_self hp,
      Table.get?_erase, if_pos rfl]
    cases s.parent? p with
    | none => rfl
    | some parent => exact (hs.owner?_eq parent n).symm
  · rw [put, hput, hs.owner?_eq, hs.find?_modify_of_unaffected h fun t hm => ?_]
    rw [Table.get?_insert, if_neg hm]
  · rw [take, remove, htake, hs.owner?_eq, hs.find?_modify_of_unaffected h fun t hm => ?_]
    rw [Table.get?_erase, if_neg hm]
  · rw [take, hs.get?_table_iff hp, hs.owner?_eq, Option.map_eq_some_iff]
    simp

/-- A block inside the root, with a block of its own and a block beside it: what the inner block binds
is seen from its own block only, and when it is removed the binding of the root is seen again. -/
theorem Ordered.owner?_update_block :
    let s := (((Store.empty.addRoot.put 0 "x" (.symbol "a")).addChild 0 .block).addChild 0 .block
      |>.addChild 1 .block).put 1 "x" (.symbol "b")
    s.Ordered ∧ 1 < s.size ∧ s.InSight "x" 1 3 ∧ ¬ s.InSight "x" 1 2 ∧
      (s.put 1 "x" (.symbol "c")).owner? 3 "x" = some (.symbol "c", some 1) ∧
      (s.take 1 "x").2.owner? 3 "x" = s.owner? 0 "x" ∧
      (s.put 1 "x" (.symbol "c")).owner? 2 "x" = s.owner? 2 "x" ∧
      ((s.take 1 "x").1 = some (.symbol "b") ↔ s.owner? 1 "x" = some (.symbol "b", some 1)) := by
  intro s
  have hroot : (Store.empty.addRoot.put 0 "x" (.symbol "a")).Reachable Prelude.host :=
    (Reachable.empty.step .addRoot trivial).step (.put 0 "x" _) Nat.zero_lt_one
  have hblocks := (hroot.step (.addChild 0 .block) Nat.zero_lt_one).step (.addChild 0 .block)
    Nat.zero_lt_two
  have hs : s.Ordered := ((hblocks.step (.addChild 1 .block) (by decide : 1 < 3)).step
    (.put 1 "x" (.symbol "b")) (by decide : 1 < 4)).ordered
    Prelude.confined
  have hinside : s.InSight "x" 1 3 := .outward rfl rfl .here
  have hbeside : ¬ s.InSight "x" 1 2 := fun h => by
    cases h with
    | outward _ hparent h =>
      cases hparent
      exact absurd (hs.inSight_le h) (by decide)
  obtain ⟨hseen, hother, htaken⟩ := hs.owner?_update (p := 1) (by decide : 1 < 4) "x" (.symbol "c")
  exact ⟨hs, by decide, hinside, hbeside, (hseen 3 hinside).1, (hseen 3 hinside).2,
    (hother 2 "x" fun _ => hbeside).1, htaken _⟩

end Store

end Reckoner
