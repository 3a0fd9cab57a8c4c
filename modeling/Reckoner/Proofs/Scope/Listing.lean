import Mathlib
import Reckoner.Proofs.Scope.Suggestion

/-! # Listings agree with lookups

A table lists what it binds.  It can keep its bindings in any order, and they may have been made in any
order, because the listing is sorted by names that occur once.  A walk outward that sorts the names of
each frame and adds those that it has not collected yet gathers the visible names.
-/
namespace Reckoner

/-! ### Sorting by names -/

namespace Text

variable {α : Type} (name : α → String)

def sortBy (l : List α) : List α :=
  l.mergeSort fun a b => !decide (Precedes (name b) (name a))

theorem pairwise_sortBy (l : List α) :
    (sortBy name l).Pairwise fun a b => ¬ Precedes (name b) (name a) := by
  have htrans (a b c : α) (hab : (!decide (Precedes (name b) (name a))) = true)
      (hbc : (!decide (Precedes (name c) (name b))) = true) :
      (!decide (Precedes (name c) (name a))) = true := by
    simp only [Bool.not_eq_true', decide_eq_false_iff_not] at hab hbc ⊢
    exact List.le_trans hab hbc
  have htotal (a b : α) : (!decide (Precedes (name b) (name a)) ||
      !decide (Precedes (name a) (name b))) = true := by
    simp only [Bool.or_eq_true, Bool.not_eq_true', decide_eq_false_iff_not]
    exact List.le_total (bytes (name a)) (bytes (name b))
  exact (List.pairwise_mergeSort htrans htotal l).imp fun h => by simpa using h

/-- What has distinct names and is in order already is found again from any arrangement of it. -/
theorem sortBy_eq_of_perm {l l' : List α} (hperm : l'.Perm l)
    (h : l.Pairwise fun a b => Precedes (name a) (name b)) : sortBy name l' = l := by
  have hsort : (sortBy name l').Perm l := (List.mergeSort_perm l' _).trans hperm
  have hnodup : (l.map name).Nodup := List.pairwise_map.mpr (h.imp Precedes.ne)
  refine List.Perm.eq_of_pairwise (fun a b ha hb hab hba => ?_) (pairwise_sortBy name l')
    (h.imp Precedes.asymm) hsort
  exact List.inj_on_of_nodup_map hnodup (hsort.subset ha) hb (eq_of_not_precedes hba hab)

end Text

/-! ### The bindings of a table -/

namespace Table

/-- Bindings are listed once each, in strictly increasing order of their names. -/
structure Lists (bound : String → Option Expr) (entries : List (String × Expr)) : Prop where
  mem_iff : ∀ n e, (n, e) ∈ entries ↔ bound n = some e
  sorted : (entries.map (·.1)).Pairwise Text.Precedes

theorem mem_entries_iff {t : Table} {n : String} {e : Expr} :
    (n, e) ∈ t.entries ↔ t.get? n = some e := by
  refine ⟨fun h => ?_, mem_entries_of_get?⟩
  obtain ⟨front, rest, hentries⟩ := List.append_of_mem h
  refine List.lookup_eq_some_iff.mpr ⟨front, rest, hentries, fun b hb => ?_⟩
  have hsorted := t.sorted
  rw [hentries, List.pairwise_append] at hsorted
  have hprecedes : Text.Precedes b.1 n := hsorted.2.2 b hb _ List.mem_cons_self
  simpa using hprecedes.ne.symm

theorem lists_entries (t : Table) : Lists t.get? t.entries :=
  ⟨fun _ _ => mem_entries_iff, t.names_pairwise⟩

/-- There is one listing of the same bindings. -/
theorem Lists.unique {bound : String → Option Expr} {l l' : List (String × Expr)}
    (h : Lists bound l) (h' : Lists bound l') : l = l' := by
  have hstrict : ∀ {l}, Lists bound l → l.Pairwise fun a b => Text.Precedes a.1 b.1 :=
    fun h => List.pairwise_map.mp h.sorted
  have hnodup : ∀ {l}, Lists bound l → l.Nodup :=
    fun h => (hstrict h).imp fun hab hne => hab.ne (congrArg Prod.fst hne)
  refine List.Perm.eq_of_pairwise (fun a b _ _ hab hba => absurd hba hab.asymm) (hstrict h)
    (hstrict h') ((List.perm_ext_iff_of_nodup (hnodup h) (hnodup h')).mpr fun b => ?_)
  exact (h.mem_iff b.1 b.2).trans (h'.mem_iff b.1 b.2).symm

inductive Change where
  | put (name : String) (e : Expr)
  | remove (name : String)

def Change.name : Change → String
  | put n _ => n
  | remove n => n

def Change.run (t : Table) : Change → Table
  | put n e => t.insert n e
  | remove n => t.erase n

/-- The table after some changes, the first of them to the empty table. -/
def replay (changes : List Change) : Table :=
  changes.foldl Change.run empty

/-- What a name is put to by the last change that is about it. -/
def lastPut? (changes : List Change) (name : String) : Option Expr :=
  match changes.reverse.find? (·.name == name) with
  | some (.put _ e) => some e
  | _ => none

theorem get?_run (t : Table) (c : Change) (n : String) :
    (c.run t).get? n = if c.name = n then lastPut? [c] n else t.get? n := by
  cases c with
  | put m e =>
    simp only [Change.run, get?_insert, Change.name, eq_comm (a := n)]
    by_cases h : m = n <;> simp [lastPut?, Change.name, h]
  | remove m =>
    simp only [Change.run, get?_erase, Change.name, eq_comm (a := n)]
    by_cases h : m = n <;> simp [lastPut?, Change.name, h]

theorem lastPut?_append (changes : List Change) (c : Change) (n : String) :
    lastPut? (changes ++ [c]) n = if c.name = n then lastPut? [c] n else lastPut? changes n := by
  by_cases h : c.name = n <;> simp [lastPut?, h]

theorem get?_replay (changes : List Change) (n : String) :
    (replay changes).get? n = lastPut? changes n := by
  induction changes using List.reverseRecOn with
  | nil => rfl
  | append_singleton changes c ih =>
    rw [replay, List.foldl_append, List.foldl_cons, List.foldl_nil, ← replay, get?_run, ih,
      lastPut?_append]

end Table

/-! ### The walk over a scope -/

namespace Scope

/-- Adds the names that are not there yet. -/
def collect (collected : List String) (names : List String) : List String :=
  names.foldl (fun collected n => if n ∈ collected then collected else collected ++ [n]) collected

/-- Goes through the names of frames, the nearest first, and collects those of each in order. -/
def gather (frames : List (List String)) (collected : List String) : List String :=
  frames.foldl (fun collected names => collect collected (Text.sortBy id names)) collected

theorem collect_eq {names : List String} (h : names.Nodup) (collected : List String) :
    collect collected names = collected ++ names.filter (· ∉ collected) := by
  induction names generalizing collected with
  | nil => simp [collect]
  | cons n names ih =>
    obtain ⟨hn, hnames⟩ := List.nodup_cons.mp h
    rw [collect, List.foldl_cons, ← collect, ih hnames]
    by_cases hmem : n ∈ collected
    · rw [if_pos hmem, List.filter_cons_of_neg (by simpa using hmem)]
    · have hrest : names.filter (fun m => decide (m ∉ collected ++ [n])) =
          names.filter (fun m => decide (m ∉ collected)) := by
        refine List.filter_congr fun m hm => ?_
        have hne : m ≠ n := fun heq => hn (heq ▸ hm)
        simp [hne]
      rw [if_neg hmem, List.filter_cons_of_pos (by simpa using hmem), hrest, List.append_assoc,
        List.singleton_append]

/-- The names of the frames come in any order. -/
theorem gather_eq {frames : List (List String)} {s : Scope}
    (h : List.Forall₂ (fun names f => names.Perm f.table.names) frames s) (collected : List String) :
    gather frames collected = collected ++ s.visibleNames.filter (· ∉ collected) := by
  induction h generalizing collected with
  | nil => simp [gather, visibleNames]
  | @cons names f frames outer hf _ ih =>
    have hnodup : f.table.names.Nodup := f.table.names_pairwise.imp Text.Precedes.ne
    rw [gather, List.foldl_cons, ← gather, Text.sortBy_eq_of_perm id hf f.table.names_pairwise,
      collect_eq hnodup, ih, visibleNames, List.filter_append, List.append_assoc, List.filter_filter]
    congr 2
    refine List.filter_congr fun n _ => ?_
    by_cases hn : n ∈ collected <;> simp [hn]

/-- Names are listed if they are bound, once each, in the order of the listing. -/
structure Lists (s : Scope) (names : List String) : Prop where
  mem_iff : ∀ n, n ∈ names ↔ s.has n = true
  nodup : names.Nodup
  ordered : names.Pairwise s.ListedBefore

theorem lists_visibleNames (s : Scope) : s.Lists s.visibleNames := by
  refine ⟨fun _ => mem_visibleNames_iff, s.pairwise_visibleNames.imp fun h => ?_,
    s.pairwise_visibleNames⟩
  rintro rfl
  exact h.asymm h

/-- Listings agree with lookups.  Those of a scope have the bound names, nearer owners first and in byte
order for one owner, and the walk outward gathers them from the names of each frame in any order.  That
of a table has its bindings in byte order, from any arrangement of them, and they are those that the
last changes have made. -/
theorem listings (s : Scope) (t : Table) :
    s.Lists s.visibleNames ∧
    (∀ frames, List.Forall₂ (fun names f => names.Perm f.table.names) frames s →
      gather frames [] = s.visibleNames) ∧
    Table.Lists t.get? t.entries ∧
    (∀ bindings, bindings.Perm t.entries → Text.sortBy (·.1) bindings = t.entries) ∧
    ∀ changes, Table.Lists (Table.lastPut? changes) (Table.replay changes).entries ∧
      ∀ changes', (∀ n, Table.lastPut? changes' n = Table.lastPut? changes n) →
        (Table.replay changes').entries = (Table.replay changes).entries := by
  have hreplay (changes) : Table.Lists (Table.lastPut? changes) (Table.replay changes).entries :=
    funext (Table.get?_replay changes) ▸ Table.lists_entries _
  refine ⟨s.lists_visibleNames, fun frames h => ?_, t.lists_entries,
    fun bindings h => Text.sortBy_eq_of_perm _ h t.sorted,
    fun changes => ⟨hreplay changes, fun changes' h => ?_⟩⟩
  · rw [gather_eq h]
    simp
  · exact (hreplay changes').unique (funext h ▸ hreplay changes)

/-- Two frames that bind one name in common, their names in another order, and a table that comes from
other changes than its bindings. -/
theorem listings_shadowed :
    let outer := Table.ofList [("x", .number 1.0), ("y", .number 1.0)]
    let inner := Table.ofList [("y", .number 2.0), ("a", .number 2.0)]
    let s : Scope := [⟨.block, inner, none⟩, ⟨.root, outer, none⟩]
    let changes : List Table.Change := [.put "y" (.number 0.0), .put "a" (.number 2.0), .remove "b",
      .put "y" (.number 2.0)]
    s.visibleNames = ["a", "y", "x"] ∧ gather [["y", "a"], ["x", "y"]] [] = s.visibleNames ∧
      Text.sortBy (·.1) [("y", .number 2.0), ("a", .number 2.0)] = inner.entries ∧
      (Table.replay changes).entries = inner.entries := by
  intro outer inner s changes
  obtain ⟨-, hgather, -, hsort, hreplay⟩ := listings s inner
  have hframes : List.Forall₂ (fun names f => names.Perm f.table.names) [["y", "a"], ["x", "y"]] s :=
    .cons (.swap "a" "y" []) (.cons (.refl _) .nil)
  have hsame (n : String) : Table.lastPut? changes n =
      Table.lastPut? [.put "y" (.number 2.0), .put "a" (.number 2.0)] n := by
    by_cases hy : "y" = n
    · subst hy
      rfl
    by_cases ha : "a" = n
    · subst ha
      rfl
    · by_cases hb : "b" = n <;> simp [changes, Table.lastPut?, Table.Change.name, hy, ha, hb]
  exact ⟨by decide, hgather _ hframes, hsort _ (.swap _ _ []), (hreplay _).2 changes hsame⟩

end Scope

end Reckoner
