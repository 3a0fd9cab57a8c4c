import Mathlib
import Reckoner.Proofs.Scope.Lookup
import Reckoner.Proofs.Text.EditDistance
import Reckoner.Proofs.Token.Partition
import Reckoner.Scope.Suggestion

/-! # The suggested name is the best one

The names of a scope are listed by how near the frame is that binds them, and in byte order within
a frame.  What is suggested for a name is, of the bound names within the threshold, the nearest in
edits, and of several equally near ones the first that is listed.  Lengths are compared in bytes
before any distance is computed; as long as names are ASCII this passes over no name that is near
enough.
-/
namespace Reckoner

/-! ### Names in ASCII -/

namespace Text

def Ascii (s : String) : Prop :=
  ∀ c ∈ s.toList, c.toNat < 128

theorem Ascii.utf8ByteSize_eq {s : String} (h : Ascii s) : s.utf8ByteSize = s.toList.length := by
  have hlength : ∀ cs : List Char, (∀ c ∈ cs, c.toNat < 128) → Token.byteLength cs = cs.length := by
    intro cs hcs
    induction cs with
    | nil => rfl
    | cons c cs ih =>
      obtain ⟨hc, hcs⟩ := List.forall_mem_cons.mp hcs
      have hone : c.utf8Size = 1 :=
        Char.utf8Size_eq_one_iff.mpr (UInt32.le_iff_toNat_le.mpr (Nat.le_of_lt_succ hc))
      rw [Token.byteLength_cons, hone, ih hcs, List.length_cons, Nat.add_comm]
  rw [← Token.byteLength_toList, hlength s.toList h]

theorem length_le_editDistance (a b : String) :
    a.toList.length ≤ b.toList.length + editDistance a b ∧
      b.toList.length ≤ a.toList.length + editDistance a b := by
  rw [editDistance_eq]
  exact (edits_distance a.toList b.toList).length_le

end Text

/-! ### The order of the visible names -/

namespace Scope

/-- A name is listed before another: the frame that binds it is nearer, or it is the same and the
name comes first in byte order. -/
def ListedBefore (s : Scope) (m n : String) : Prop :=
  ∃ d e near far, s.owner? m = some (d, near) ∧ s.owner? n = some (e, far) ∧
    (far.length < near.length ∨ near.length = far.length ∧ Text.Precedes m n)

theorem ListedBefore.asymm {s : Scope} {m n : String} (h : s.ListedBefore m n) :
    ¬ s.ListedBefore n m := by
  rintro ⟨d', e', near', far', hn', hm', horder'⟩
  obtain ⟨d, e, near, far, hm, hn, horder⟩ := h
  cases hm.symm.trans hm'
  cases hn.symm.trans hn'
  rcases horder with hlt | ⟨heq, hprecedes⟩
  · omega
  · exact hprecedes.asymm (horder'.resolve_left (by omega)).2

theorem owner?_length_le {s owner : Scope} {n : String} {e : Expr}
    (h : s.owner? n = some (e, owner)) : owner.length ≤ s.length := by
  induction s with
  | nil => cases h
  | cons f outer ih =>
    cases hf : f.table.get? n with
    | some d =>
      rw [owner?_cons_of_some hf] at h
      cases h
      exact le_rfl
    | none =>
      rw [owner?_cons_of_none hf] at h
      exact (ih h).trans (Nat.le_succ _)

theorem exists_owner?_iff {s : Scope} {n : String} :
    s.has n = true ↔ ∃ e owner, s.owner? n = some (e, owner) := by
  rw [has, Option.isSome_iff_exists]
  exact ⟨fun ⟨⟨e, owner⟩, h⟩ => ⟨e, owner, h⟩, fun ⟨e, owner, h⟩ => ⟨(e, owner), h⟩⟩

/-- The visible names are the bound ones. -/
theorem mem_visibleNames_iff {s : Scope} {n : String} : n ∈ s.visibleNames ↔ s.has n = true := by
  induction s with
  | nil => simp [visibleNames, has, owner?]
  | cons f outer ih =>
    rw [visibleNames, List.mem_append, List.mem_filter, ih, Table.mem_names_iff]
    cases hf : f.table.get? n with
    | some d => simp [has, owner?_cons_of_some hf]
    | none =>
      have hnot : n ∉ f.table.names := fun hmem => Table.mem_names_iff.mp hmem hf
      simp [has, owner?_cons_of_none hf, hnot]

theorem ListedBefore.cons {f : Frame} {outer : Scope} {m n : String}
    (h : ListedBefore outer m n) (hm : m ∉ f.table.names) (hn : n ∉ f.table.names) :
    ListedBefore (f :: outer) m n := by
  rw [Table.mem_names_iff, not_not] at hm hn
  obtain ⟨d, e, near, far, howner, howner', horder⟩ := h
  exact ⟨d, e, near, far, (owner?_cons_of_none hm).trans howner,
    (owner?_cons_of_none hn).trans howner', horder⟩

/-- The visible names come in the order of the listing. -/
theorem pairwise_visibleNames (s : Scope) : s.visibleNames.Pairwise s.ListedBefore := by
  induction s with
  | nil => exact .nil
  | cons f outer ih =>
    have hbound : ∀ n ∈ f.table.names, ∃ e, owner? n (f :: outer) = some (e, f :: outer) := by
      intro n hn
      obtain ⟨e, he⟩ := Option.ne_none_iff_exists'.mp (Table.mem_names_iff.mp hn)
      exact ⟨e, owner?_cons_of_some he⟩
    have hunbound : ∀ n ∈ (visibleNames outer).filter (!f.table.names.contains ·),
        n ∉ f.table.names := fun n hn => by simpa using (List.mem_filter.mp hn).2
    rw [visibleNames, List.pairwise_append]
    refine ⟨f.table.names_pairwise.imp_of_mem fun hm hn hprecedes => ?_,
      (ih.filter _).imp_of_mem fun hm hn h => h.cons (hunbound _ hm) (hunbound _ hn),
      fun m hm n hn => ?_⟩
    · obtain ⟨d, hd⟩ := hbound _ hm
      obtain ⟨e, he⟩ := hbound _ hn
      exact ⟨d, e, _, _, hd, he, .inr ⟨rfl, hprecedes⟩⟩
    · obtain ⟨d, hd⟩ := hbound m hm
      obtain ⟨e, owner, howner⟩ :=
        exists_owner?_iff.mp (mem_visibleNames_iff.mp (List.mem_filter.mp hn).1)
      have hfar : owner? n (f :: outer) = some (e, owner) := by
        rw [owner?_cons_of_none (not_not.mp (mt Table.mem_names_iff.mpr (hunbound n hn))), howner]
      exact ⟨d, e, _, owner, hd, hfar, .inl (Nat.lt_succ_of_le (owner?_length_le howner))⟩

/-! ### The best candidate -/

/-- A name that may be suggested for another: it is bound, it is not that name itself, and it is
within the threshold. -/
def Candidate (s : Scope) (u n : String) : Prop :=
  s.has n = true ∧ n ≠ u ∧ Text.editDistance u n ≤ suggestionThreshold u.utf8ByteSize

/-- The best of the candidates: no other is nearer, and of those equally near it is listed first. -/
structure BestCandidate (s : Scope) (u n : String) : Prop where
  candidate : s.Candidate u n
  nearest : ∀ m, s.Candidate u m → Text.editDistance u n ≤ Text.editDistance u m
  first : ∀ m, s.Candidate u m → Text.editDistance u m = Text.editDistance u n → m ≠ n →
    s.ListedBefore n m

/-- Between names in ASCII the comparison of lengths passes over none that is near enough. -/
theorem suggestionDistance?_eq_some_iff {u n : String} {d : Nat} (hu : Text.Ascii u)
    (hn : Text.Ascii n) : suggestionDistance? u n = some d ↔
      n ≠ u ∧ Text.editDistance u n ≤ suggestionThreshold u.utf8ByteSize ∧
        Text.editDistance u n = d := by
  have hlength := Text.length_le_editDistance u n
  rw [← hu.utf8ByteSize_eq, ← hn.utf8ByteSize_eq] at hlength
  simp only [suggestionDistance?]
  split
  · rename_i hfar
    refine ⟨fun h => (by cases h), fun ⟨hne, hnear, _⟩ => ?_⟩
    rcases hfar with hgap | heq
    · omega
    · exact absurd heq hne
  · rename_i hnear
    rw [not_or] at hnear
    split
    · rename_i hfar
      exact ⟨fun h => (by cases h), fun h => absurd h.2.1 (Nat.not_le.mpr hfar)⟩
    · rename_i hwithin
      exact ⟨fun h => ⟨hnear.2, Nat.not_lt.mp hwithin, Option.some.inj h⟩, fun h => by rw [h.2.2]⟩

/-- The names worth suggesting, with their distances. -/
def ranked (u : String) (names : List String) : List (String × Nat) :=
  names.filterMap fun n => (suggestionDistance? u n).map (n, ·)

theorem mem_ranked {u n : String} {d : Nat} {names : List String} :
    (n, d) ∈ ranked u names ↔ n ∈ names ∧ suggestionDistance? u n = some d := by
  simp [ranked, List.mem_filterMap]

/-- The fold keeps the first of the least distances. -/
theorem foldl_closer (u : String) (names : List String) :
    names.foldl (closer u) none = (ranked u names).argmin (·.2) := by
  rw [List.argmin, ranked, List.foldl_filterMap]
  congr 1
  funext best name
  unfold closer
  cases suggestionDistance? u name with
  | none => rfl
  | some d =>
    cases best with
    | none => rfl
    | some found => rfl

/-- In a list in some order the first of two members comes first in that order. -/
theorem idxOf_le_iff_of_pairwise {α : Type} [DecidableEq α] {R : α → α → Prop} {l : List α}
    (hl : l.Pairwise R) (hasymm : ∀ a b, R a b → ¬ R b a) {a b : α} (ha : a ∈ l) (hb : b ∈ l)
    (hne : a ≠ b) : l.idxOf a ≤ l.idxOf b ↔ R a b := by
  have hforward : ∀ {x y : α}, x ∈ l → y ∈ l → l.idxOf x < l.idxOf y → R x y := by
    intro x y hx hy hlt
    have hxy := List.pairwise_iff_getElem.mp hl _ _ (List.idxOf_lt_length_of_mem hx)
      (List.idxOf_lt_length_of_mem hy) hlt
    rwa [List.getElem_idxOf, List.getElem_idxOf] at hxy
  constructor
  · intro hle
    refine hforward ha hb (Nat.lt_of_le_of_ne hle fun heq => hne ?_)
    exact (List.idxOf_inj ha).mp heq
  · intro hR
    by_contra hlt
    exact hasymm a b hR (hforward hb ha (Nat.not_le.mp hlt))

section Best

variable {s : Scope} {u n : String} {d : Nat}

theorem mem_ranked_visibleNames (hs : ∀ n, s.has n = true → Text.Ascii n) (hu : Text.Ascii u) :
    (n, d) ∈ ranked u s.visibleNames ↔ s.Candidate u n ∧ Text.editDistance u n = d := by
  rw [mem_ranked, mem_visibleNames_iff, Candidate]
  constructor
  · rintro ⟨hhas, hd⟩
    obtain ⟨hne, hnear, heq⟩ := (suggestionDistance?_eq_some_iff hu (hs n hhas)).mp hd
    exact ⟨⟨hhas, hne, hnear⟩, heq⟩
  · rintro ⟨⟨hhas, hne, hnear⟩, heq⟩
    exact ⟨hhas, (suggestionDistance?_eq_some_iff hu (hs n hhas)).mpr ⟨hne, hnear, heq⟩⟩

theorem pairwise_ranked (s : Scope) (u : String) :
    (ranked u s.visibleNames).Pairwise fun p q => s.ListedBefore p.1 q.1 := by
  refine s.pairwise_visibleNames.filterMap _ fun m n h p hp q hq => ?_
  obtain ⟨d, -, rfl⟩ := Option.map_eq_some_iff.mp hp
  obtain ⟨e, -, rfl⟩ := Option.map_eq_some_iff.mp hq
  exact h

/-- The first of the least distances is that of the best candidate. -/
theorem argmin_ranked_iff (hs : ∀ n, s.has n = true → Text.Ascii n) (hu : Text.Ascii u) :
    (ranked u s.visibleNames).argmin (·.2) = some (n, d) ↔
      s.BestCandidate u n ∧ Text.editDistance u n = d := by
  have hmember : ∀ {m e}, (m, e) ∈ ranked u s.visibleNames ↔
      s.Candidate u m ∧ Text.editDistance u m = e := mem_ranked_visibleNames hs hu
  have hasymm : ∀ p q : String × Nat, s.ListedBefore p.1 q.1 → ¬ s.ListedBefore q.1 p.1 :=
    fun _ _ h => h.asymm
  rw [List.argmin_eq_some_iff]
  constructor
  · rintro ⟨hmem, hleast, hfirst⟩
    obtain ⟨hcandidate, rfl⟩ := hmember.mp hmem
    refine ⟨⟨hcandidate, fun m hm => ?_, fun m hm heq hne => ?_⟩, rfl⟩
    · exact hleast _ (hmember.mpr ⟨hm, rfl⟩)
    · have hm' := hmember.mpr ⟨hm, rfl⟩
      exact (idxOf_le_iff_of_pairwise (pairwise_ranked s u) hasymm hmem hm'
        fun h => hne (congrArg Prod.fst h).symm).mp (hfirst _ hm' heq.le)
  · rintro ⟨hbest, rfl⟩
    have hmem := hmember.mpr ⟨hbest.candidate, rfl⟩
    refine ⟨hmem, fun ⟨m, e⟩ hm => ?_, fun ⟨m, e⟩ hm hle => ?_⟩
    · obtain ⟨hcandidate, rfl⟩ := hmember.mp hm
      exact hbest.nearest m hcandidate
    · obtain ⟨hcandidate, rfl⟩ := hmember.mp hm
      by_cases hne : m = n
      · subst hne
        exact le_rfl
      · have heq := Nat.le_antisymm hle (hbest.nearest m hcandidate)
        exact (idxOf_le_iff_of_pairwise (pairwise_ranked s u) hasymm hmem hm
          fun h => hne (congrArg Prod.fst h).symm).mpr (hbest.first m hcandidate heq hne)

/-- Nothing is within the threshold of the empty name but itself. -/
theorem not_candidate_empty (s : Scope) (n : String) : ¬ s.Candidate "" n := by
  rintro ⟨-, hne, hnear⟩
  have hlength := (Text.length_le_editDistance "" n).2
  have hnil : n.toList.length = 0 := Nat.le_zero.mp (hlength.trans (Nat.add_le_add_left hnear _))
  exact hne (by simpa using hnil)

theorem suggest?_eq (hne : u ≠ "") :
    s.suggest? u = ((ranked u s.visibleNames).argmin (·.2)).map (·.1) := by
  rw [suggest?, closest?, if_neg (by simpa using hne), foldl_closer]

/-- Among ASCII names the best candidate is suggested, and nothing where there is none. -/
theorem suggest?_iff (hs : ∀ n, s.has n = true → Text.Ascii n) (hu : Text.Ascii u) :
    (∀ n, s.suggest? u = some n ↔ s.BestCandidate u n) ∧
      (s.suggest? u = none ↔ ∀ n, ¬ s.Candidate u n) := by
  by_cases hempty : u = ""
  · subst hempty
    have hnone : s.suggest? "" = none := rfl
    rw [hnone]
    exact ⟨fun n => ⟨fun h => (by cases h), fun h => absurd h.candidate (not_candidate_empty s n)⟩,
      fun _ => not_candidate_empty s, fun _ => rfl⟩
  rw [suggest?_eq hempty]
  constructor
  · intro n
    rw [Option.map_eq_some_iff]
    constructor
    · rintro ⟨⟨m, d⟩, hd, rfl⟩
      exact ((argmin_ranked_iff hs hu).mp hd).1
    · exact fun h => ⟨(n, _), (argmin_ranked_iff hs hu).mpr ⟨h, rfl⟩, rfl⟩
  · rw [Option.map_eq_none_iff, List.argmin_eq_none, List.eq_nil_iff_forall_not_mem]
    constructor
    · exact fun h n hn => h (n, _) ((mem_ranked_visibleNames hs hu).mpr ⟨hn, rfl⟩)
    · exact fun h ⟨n, d⟩ hn => h n ((mem_ranked_visibleNames hs hu).mp hn).1

/-- Of three names with one edit each, the first of the nearer frame. -/
theorem suggest?_iff_nearer :
    let s : Scope := [⟨.block, .ofList [("toti", .number 1.0), ("total", .number 2.0)], none⟩,
      ⟨.root, .ofList [("tot", .number 3.0)], none⟩]
    (∀ n, s.has n = true → Text.Ascii n) ∧ Text.Ascii "totl" ∧ s.BestCandidate "totl" "total" := by
  intro s
  have hnames : s.visibleNames = ["total", "toti", "tot"] := by decide
  have hascii : Text.Ascii "totl" := by simp [Text.Ascii]
  have hbound : ∀ n, s.has n = true → Text.Ascii n := by
    intro n hn
    rw [← mem_visibleNames_iff, hnames] at hn
    simp only [List.mem_cons, List.not_mem_nil, or_false] at hn
    rcases hn with rfl | rfl | rfl <;> simp [Text.Ascii]
  exact ⟨hbound, hascii, ((suggest?_iff hbound hascii).1 "total").mp (by decide)⟩

end Best

end Scope

end Reckoner
