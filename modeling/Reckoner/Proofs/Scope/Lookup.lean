import Mathlib
import Reckoner.Proofs.Expr.WellFormed
import Reckoner.Scope.Basic

/-! # What lookups find

Every binding that a lookup finds stands in a frame of the scope, and is read in a scope made of
frames that are already there.  A call binds a name to an argument exactly when a check of its
function declares the name as a parameter.
-/
namespace Reckoner

namespace Table

theorem mem_entries_of_get? {t : Table} {n : String} {e : Expr} (h : t.get? n = some e) :
    (n, e) ∈ t.entries := by
  obtain ⟨front, rest, hentries, -⟩ := List.lookup_eq_some_iff.mp h
  simp [hentries]

theorem mem_names_of_get? {t : Table} {n : String} {e : Expr} (h : t.get? n = some e) :
    n ∈ t.names :=
  List.mem_map_of_mem (mem_entries_of_get? h)

/-- The names of a table are those that it binds. -/
theorem mem_names_iff {t : Table} {n : String} : n ∈ t.names ↔ t.get? n ≠ none := by
  constructor
  · intro hmem hnone
    obtain ⟨b, hb, rfl⟩ := List.mem_map.mp hmem
    simpa using List.lookup_eq_none_iff.mp hnone b hb
  · intro h
    obtain ⟨e, he⟩ := Option.ne_none_iff_exists'.mp h
    exact mem_names_of_get? he

/-- What holds of the bindings of a table, and of one more, holds of all when that one is made. -/
theorem forall_insert {P : String → Expr → Prop} {t : Table}
    (h : ∀ n d, t.get? n = some d → P n d) {name : String} {e : Expr} (he : P name e) :
    ∀ n d, (t.insert name e).get? n = some d → P n d := by
  intro n d hd
  rw [get?_insert] at hd
  split at hd
  · rename_i hn
    cases hd
    exact hn ▸ he
  · exact h n d hd

/-- After some bindings are made, a name has one of them or what it had before. -/
theorem mem_or_get?_of_insertAll {t : Table} {bindings : List (String × Expr)} {n : String}
    {e : Expr} (h : (t.insertAll bindings).get? n = some e) :
    (n, e) ∈ bindings ∨ t.get? n = some e := by
  induction bindings generalizing t with
  | nil => exact .inr h
  | cons b bindings ih =>
    rcases ih h with hmem | hget
    · exact .inl (List.mem_cons_of_mem _ hmem)
    · rw [get?_insert] at hget
      split at hget
      · rename_i hn
        cases hget
        rw [hn]
        exact .inl List.mem_cons_self
      · exact .inr hget

theorem mem_of_get?_ofList {bindings : List (String × Expr)} {n : String} {e : Expr}
    (h : (ofList bindings).get? n = some e) : (n, e) ∈ bindings := by
  rcases mem_or_get?_of_insertAll h with hmem | hget
  · exact hmem
  · cases hget

/-- What holds of the bindings of a list holds of the table that they make. -/
theorem forall_ofList {P : String → Expr → Prop} {bindings : List (String × Expr)}
    (h : ∀ b ∈ bindings, P b.1 b.2) : ∀ n e, (ofList bindings).get? n = some e → P n e :=
  fun _ _ he => h _ (mem_of_get?_ofList he)

/-- The argument that a name is bound to goes with the parameter that it declares, and no name is
bound to the one without the other. -/
def Paired (R : Parameter → Expr → Prop) (declared given : Table) (n : String) : Prop :=
  declared.get? n = none ∧ given.get? n = none ∨
    ∃ p a, R p a ∧ declared.get? n = some (.parameter p) ∧ given.get? n = some a

theorem paired_insertAll {R : Parameter → Expr → Prop} {ps : List Parameter} {args : List Expr}
    (h : List.Forall₂ R ps args) {declared given : Table} {n : String}
    (hn : Paired R declared given n) :
    Paired R (declared.insertAll (ps.map fun p => (p.name, .parameter p)))
      (given.insertAll ((ps.map (·.name)).zip args)) n := by
  induction h generalizing declared given with
  | nil => exact hn
  | @cons p a ps args hpa _ ih =>
    apply ih
    simp only [Paired, get?_insert]
    by_cases hp : n = p.name
    · simp only [if_pos hp]
      exact .inr ⟨p, a, hpa, rfl, rfl⟩
    · simp only [if_neg hp]
      exact hn

theorem paired_ofList {R : Parameter → Expr → Prop} {ps : List Parameter} {args : List Expr}
    (h : List.Forall₂ R ps args) (n : String) :
    Paired R (ofList (ps.map fun p => (p.name, .parameter p)))
      (ofList ((ps.map (·.name)).zip args)) n :=
  paired_insertAll h (.inl ⟨rfl, rfl⟩)

theorem get?_declared_eq_none {ps : List Parameter} {n : String} (h : Expr.declares ps n = false) :
    (ofList (ps.map fun p => (p.name, .parameter p))).get? n = none := by
  cases hget : (ofList (ps.map fun p => (p.name, Expr.parameter p))).get? n with
  | none => rfl
  | some e =>
    obtain ⟨p, hp, heq⟩ := List.mem_map.mp (mem_of_get?_ofList hget)
    cases heq
    have hne := List.any_eq_false.mp h p hp
    simp at hne

/-- A binding once made is at most replaced. -/
theorem get?_insertAll_ne_none {t : Table} {n : String} (bindings : List (String × Expr))
    (h : n ∈ bindings.map (·.1) ∨ t.get? n ≠ none) : (t.insertAll bindings).get? n ≠ none := by
  induction bindings generalizing t with
  | nil => exact h.resolve_left (by simp)
  | cons b bindings ih =>
    apply ih
    rw [get?_insert]
    by_cases hb : n = b.1
    · simp [hb]
    · simpa [hb] using h

theorem get?_ofList_ne_none {n : String} {bindings : List (String × Expr)}
    (h : n ∈ bindings.map (·.1)) : (ofList bindings).get? n ≠ none :=
  get?_insertAll_ne_none bindings (.inl h)

end Table

namespace Scope

/-- What holds of the bindings of a table holds of those in its scope. -/
theorem forall_ofTable {P : Expr → Prop} {t : Table} (h : ∀ n e, t.get? n = some e → P e) :
    ∀ f ∈ ofTable t, ∀ n e, f.table.get? n = some e → P e := by
  intro f hf n e he
  rw [List.mem_singleton.mp hf] at he
  exact h n e he

/-- A call binds nothing but its arguments. -/
theorem forall_activate {P : Expr → Prop} {s : Scope}
    (hs : ∀ f ∈ s, ∀ n e, f.table.get? n = some e → P e) (ps : List Parameter) {args : List Expr}
    (hargs : ∀ a ∈ args, P a) :
    ∀ f ∈ s.activate ps args, ∀ n e, f.table.get? n = some e → P e := by
  intro f hf n e he
  rcases List.mem_cons.mp hf with rfl | hf
  · exact hargs e (List.of_mem_zip (Table.mem_of_get?_ofList he)).2
  · exact hs f hf n e he

theorem readingScope_subset {start owner : Scope} (h : owner ⊆ start) :
    readingScope start owner ⊆ start := by
  simp only [readingScope]
  split
  · exact List.Subset.refl _
  · split
    · exact h
    · exact List.Subset.refl _
  · split
    · exact fun f hf => h (List.mem_cons_of_mem _ hf)
    · exact List.Subset.refl _

theorem mem_of_owner? {s : Scope} {n : String} {e : Expr} {owner : Scope}
    (h : s.owner? n = some (e, owner)) :
    (∃ f ∈ s, f.table.get? n = some e) ∧ owner ⊆ s := by
  induction s with
  | nil => cases h
  | cons f outer ih =>
    cases hf : f.table.get? n with
    | some d =>
      rw [owner?_cons_of_some hf] at h
      cases h
      exact ⟨⟨f, List.mem_cons_self, hf⟩, List.Subset.refl _⟩
    | none =>
      rw [owner?_cons_of_none hf] at h
      obtain ⟨⟨g, hg, hget⟩, hsub⟩ := ih h
      exact ⟨⟨g, List.mem_cons_of_mem _ hg, hget⟩, List.subset_cons_of_subset _ hsub⟩

/-- A binding that is found stands in the scope, and is read in frames of the scope. -/
theorem mem_of_resolve? {s : Scope} {n : String} {e : Expr} {env : Scope}
    (h : s.resolve? n = some (e, env)) :
    (∃ f ∈ s, f.table.get? n = some e) ∧ env ⊆ s := by
  obtain ⟨⟨d, owner⟩, howner, heq⟩ := Option.map_eq_some_iff.mp h
  cases heq
  obtain ⟨hmem, hsub⟩ := mem_of_owner? howner
  exact ⟨hmem, readingScope_subset hsub⟩

theorem forall_resolve? {P : Expr → Prop} {s : Scope}
    (hs : ∀ f ∈ s, ∀ n e, f.table.get? n = some e → P e) {n : String} {e : Expr} {env : Scope}
    (h : s.resolve? n = some (e, env)) : P e ∧ ∀ f ∈ env, ∀ n e, f.table.get? n = some e → P e := by
  obtain ⟨⟨f, hf, hget⟩, hsub⟩ := mem_of_resolve? h
  exact ⟨hs f hf n e hget, fun g hg => hs g (hsub hg)⟩

/-- The argument of a call is read outside the activation that binds it. -/
theorem resolve?_of_activation {s outer : Scope} {f : Frame} {n : String} {e : Expr}
    (h : s.owner? n = some (e, f :: outer)) (hf : f.purpose = .activation) (houter : outer ≠ []) :
    s.resolve? n = some (e, outer) := by
  cases outer with
  | nil => exact absurd rfl houter
  | cons g outer => simp [resolve?, h, readingScope, hf]

/-- What is not the argument of a call is read where it was looked up. -/
theorem resolve?_of_not_activation {s outer : Scope} {f : Frame} {n : String} {e : Expr}
    (h : s.owner? n = some (e, f :: outer)) (hf : f.purpose ≠ .activation) :
    s.resolve? n = some (e, s) := by
  cases outer with
  | nil => simp [resolve?, h, readingScope, hf]
  | cons g outer => simp [resolve?, h, readingScope, hf]

theorem owner?_ofTable (t : Table) (n : String) :
    (ofTable t).owner? n = (t.get? n).map (·, ofTable t) := by
  cases hn : t.get? n with
  | none => rw [ofTable, owner?_cons_of_none hn, Option.map_none, owner?]
  | some e => rw [ofTable, owner?_cons_of_some hn, Option.map_some]

theorem resolve?_of_root {s : Scope} {t : Table} {n : String}
    (h : s.owner? n = (t.get? n).map (·, ofTable t)) : s.resolve? n = (t.get? n).map (·, s) := by
  cases hn : t.get? n with
  | none => simp [resolve?, h, hn]
  | some e =>
    rw [hn, Option.map_some] at h
    exact resolve?_of_not_activation h (by simp)

end Scope

theorem NativeCode.Fits.get?_ne_none {code : NativeCode} {ps : List Parameter} (hcode : code.Fits ps)
    {args : List Expr} (hlen : ps.length = args.length) {n : String} (hn : n ∈ code.params) :
    (Table.ofList ((ps.map (·.name)).zip args)).get? n ≠ none := by
  apply Table.get?_ofList_ne_none
  rw [List.map_fst_zip (by simp [hlen]), ← hcode.names]
  exact hn

/-- Host code that is the body of a function finds the arguments of the call, as they were written. -/
theorem NativeCode.Fits.resolve? {code : NativeCode} {ps : List Parameter} (hcode : code.Fits ps)
    {s : Scope} (hs : s ≠ []) {R : Parameter → Expr → Prop} {args : List Expr}
    (hargs : List.Forall₂ R ps args) {n : String} (hn : n ∈ code.params) :
    ∃ p a, p.ty = .number ∧ R p a ∧ (s.activate ps args).resolve? n = some (a, s) := by
  rcases Table.paired_ofList ((List.forall₂_and_left ps args).mpr ⟨hcode.numbers, hargs⟩) n with
    ⟨-, hnone⟩ | ⟨p, a, ⟨hp, ha⟩, -, hsome⟩
  · exact absurd hnone (hcode.get?_ne_none hargs.length_eq hn)
  · exact ⟨p, a, hp, ha, Scope.resolve?_of_activation (Scope.owner?_cons_of_some hsome) rfl hs⟩

end Reckoner
