import Reckoner.Expr.Basic
import Reckoner.Text.ByteOrder

/-! # Tables of bindings

A table binds names to expressions.  It keeps its bindings in strictly increasing byte order of
their names, so a table is determined by what its names are bound to, and its listing does not
depend on the order in which the names were bound.
-/
namespace Reckoner

/-- Bindings in strictly increasing order of their names. -/
structure Table where
  entries : List (String × Expr)
  sorted : entries.Pairwise fun a b => Text.Precedes a.1 b.1

namespace Table

def empty : Table :=
  ⟨[], .nil⟩

instance : Inhabited Table := ⟨empty⟩

def get? (t : Table) (name : String) : Option Expr :=
  t.entries.lookup name

def names (t : Table) : List String :=
  t.entries.map (·.1)

def size (t : Table) : Nat :=
  t.entries.length

/-- Puts a binding in its place, where it replaces one of the same name. -/
def insertEntry (name : String) (e : Expr) : List (String × Expr) → List (String × Expr)
  | [] => [(name, e)]
  | (n, d) :: rest =>
    if Text.Precedes name n then (name, e) :: (n, d) :: rest
    else if n = name then (name, e) :: rest
    else (n, d) :: insertEntry name e rest

theorem mem_insertEntry {name : String} {e : Expr} {l : List (String × Expr)} {p : String × Expr}
    (h : p ∈ insertEntry name e l) : p = (name, e) ∨ p ∈ l := by
  induction l with
  | nil => simpa [insertEntry] using h
  | cons q rest ih =>
    obtain ⟨n, d⟩ := q
    simp only [insertEntry] at h
    split at h
    · simpa using h
    · split at h
      · rcases List.mem_cons.mp h with h | h
        · exact .inl h
        · exact .inr (List.mem_cons_of_mem _ h)
      · rcases List.mem_cons.mp h with h | h
        · exact .inr (h ▸ List.mem_cons_self)
        · exact (ih h).imp_right (List.mem_cons_of_mem _)

theorem pairwise_insertEntry {name : String} {e : Expr} {l : List (String × Expr)}
    (h : l.Pairwise fun a b => Text.Precedes a.1 b.1) :
    (insertEntry name e l).Pairwise fun a b => Text.Precedes a.1 b.1 := by
  induction l with
  | nil => exact List.pairwise_singleton _ _
  | cons q rest ih =>
    obtain ⟨n, d⟩ := q
    obtain ⟨hn, hrest⟩ := List.pairwise_cons.mp h
    simp only [insertEntry]
    split
    · rename_i hlt
      refine List.pairwise_cons.mpr ⟨fun p hp => ?_, h⟩
      rcases List.mem_cons.mp hp with rfl | hp
      · exact hlt
      · exact hlt.trans (hn p hp)
    · rename_i hnot
      split
      · rename_i heq
        exact List.pairwise_cons.mpr ⟨fun p hp => heq ▸ hn p hp, hrest⟩
      · rename_i hne
        have hlt : Text.Precedes n name :=
          Decidable.byContradiction fun hgt => hne (Text.eq_of_not_precedes hgt hnot)
        refine List.pairwise_cons.mpr ⟨fun p hp => ?_, ih hrest⟩
        rcases mem_insertEntry hp with rfl | hp
        · exact hlt
        · exact hn p hp

/-- Binds a name, in place of what it was bound to. -/
def insert (t : Table) (name : String) (e : Expr) : Table :=
  ⟨insertEntry name e t.entries, pairwise_insertEntry t.sorted⟩

def erase (t : Table) (name : String) : Table :=
  ⟨t.entries.filter (·.1 != name), t.sorted.filter _⟩

/-- Binds the names of a list in turn, so that the last of equal names counts. -/
def insertAll (t : Table) (bindings : List (String × Expr)) : Table :=
  bindings.foldl (fun t b => t.insert b.1 b.2) t

/-- The bindings of a list, the last of equal names counting. -/
def ofList (bindings : List (String × Expr)) : Table :=
  empty.insertAll bindings

theorem lookup_cons_of_ne {m n : String} (h : m ≠ n) (d : Expr) (l : List (String × Expr)) :
    ((n, d) :: l).lookup m = l.lookup m := by
  rw [List.lookup_cons, beq_false_of_ne h]

theorem lookup_insertEntry (name : String) (e : Expr) (m : String) (l : List (String × Expr)) :
    (insertEntry name e l).lookup m = if m = name then some e else l.lookup m := by
  induction l with
  | nil =>
    by_cases h : m = name
    · simp [insertEntry, h]
    · simp [insertEntry, h, lookup_cons_of_ne h]
  | cons q rest ih =>
    obtain ⟨n, d⟩ := q
    simp only [insertEntry]
    split
    · by_cases h : m = name
      · simp [h]
      · simp [h, lookup_cons_of_ne h]
    · split
      · rename_i heq
        subst heq
        by_cases h : m = n
        · simp [h]
        · simp [h, lookup_cons_of_ne h]
      · rename_i hne
        by_cases h : m = n
        · simp [h, hne]
        · simp [lookup_cons_of_ne h, ih]

@[simp] theorem get?_empty (m : String) : empty.get? m = none := rfl

/-- After an insertion the name is bound to the new expression, and the others to what they were. -/
theorem get?_insert (t : Table) (name : String) (e : Expr) (m : String) :
    (t.insert name e).get? m = if m = name then some e else t.get? m :=
  lookup_insertEntry name e m t.entries

theorem lookup_filter_ne (name m : String) (l : List (String × Expr)) :
    (l.filter (·.1 != name)).lookup m = if m = name then none else l.lookup m := by
  induction l with
  | nil => simp
  | cons q rest ih =>
    obtain ⟨n, d⟩ := q
    by_cases hn : n = name
    · subst hn
      rw [List.filter_cons_of_neg (by simp), ih]
      by_cases h : m = n
      · simp [h]
      · simp [h, lookup_cons_of_ne h]
    · rw [List.filter_cons_of_pos (by simp [hn])]
      by_cases h : m = n
      · simp [h, hn]
      · rw [lookup_cons_of_ne h, lookup_cons_of_ne h, ih]

/-- After a removal the name is unbound, and the others are bound to what they were. -/
theorem get?_erase (t : Table) (name m : String) :
    (t.erase name).get? m = if m = name then none else t.get? m :=
  lookup_filter_ne name m t.entries

/-- The names of a table are in strictly increasing byte order. -/
theorem names_pairwise (t : Table) : t.names.Pairwise Text.Precedes :=
  List.pairwise_map.mpr t.sorted

end Table

end Reckoner
