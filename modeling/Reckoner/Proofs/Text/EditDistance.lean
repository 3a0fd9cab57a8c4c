import Mathlib
import Reckoner.Text.EditDistance

/-! # The edit distance is the least number of edits

An edit inserts, deletes or replaces one character anywhere.  The distance of two texts is first
given by a recurrence on their first characters: it is the least number of edits, since as many
lead from the one to the other, and no single edit brings a text nearer by more than one.  Edits
read backwards are edits of the reversed texts, so the recurrence holds of the last characters as
well, and this is how the rows are computed.
-/
namespace Reckoner.Text

/-- A single edit: one character is inserted, deleted or replaced somewhere in a text. -/
inductive Edit : List Char → List Char → Prop where
  | insert (front back : List Char) (c : Char) : Edit (front ++ back) (front ++ c :: back)
  | delete (front back : List Char) (c : Char) : Edit (front ++ c :: back) (front ++ back)
  | replace (front back : List Char) (c d : Char) : Edit (front ++ c :: back) (front ++ d :: back)

inductive Edits : Nat → List Char → List Char → Prop where
  | none (s : List Char) : Edits 0 s s
  | more {n : Nat} {s t u : List Char} (h : Edit s t) (hs : Edits n t u) : Edits (n + 1) s u

/-- How many characters differ when one is put in the place of another. -/
def replaceCost (c d : Char) : Nat :=
  if c = d then 0 else 1

/-- The edit distance by recurrence: the first character is deleted, or one is inserted before it,
or it is replaced, or kept. -/
def distance : List Char → List Char → Nat
  | [], t => t.length
  | c :: s, [] => (c :: s).length
  | c :: s, d :: t => min (min (distance s (d :: t) + 1) (distance (c :: s) t + 1))
      (distance s t + replaceCost c d)
termination_by s t => s.length + t.length

variable {s t u : List Char} {c d : Char} {n : Nat}

theorem replaceCost_le (c d : Char) : replaceCost c d ≤ 1 := by
  unfold replaceCost
  split <;> omega

/-! ### As many edits are enough -/

theorem Edit.cons (h : Edit s t) (x : Char) : Edit (x :: s) (x :: t) := by
  cases h with
  | insert front back c => exact .insert (x :: front) back c
  | delete front back c => exact .delete (x :: front) back c
  | replace front back c d => exact .replace (x :: front) back c d

theorem Edits.cons (h : Edits n s t) (x : Char) : Edits n (x :: s) (x :: t) := by
  induction h with
  | none s => exact .none (x :: s)
  | more h _ ih => exact .more (h.cons x) ih

theorem edits_inserted (t : List Char) : Edits t.length [] t := by
  induction t with
  | nil => exact .none []
  | cons d t ih => exact .more (.insert [] [] d) (ih.cons d)

theorem edits_deleted (s : List Char) : Edits s.length s [] := by
  induction s with
  | nil => exact .none []
  | cons c s ih => exact .more (.delete [] s c) ih

/-- As many edits as the distance lead from one text to the other. -/
theorem edits_distance (s t : List Char) : Edits (distance s t) s t := by
  induction s, t using distance.induct with
  | case1 t =>
    rw [distance]
    exact edits_inserted t
  | case2 c s =>
    rw [distance]
    exact edits_deleted (c :: s)
  | case3 c s d t hdelete hinsert hreplace =>
    rw [distance]
    rcases min_choice (min (distance s (d :: t) + 1) (distance (c :: s) t + 1))
      (distance s t + replaceCost c d) with hmin | hmin
    · rw [hmin]
      rcases min_choice (distance s (d :: t) + 1) (distance (c :: s) t + 1) with hmin | hmin
      · rw [hmin]
        exact .more (.delete [] s c) hdelete
      · rw [hmin]
        exact .more (.insert [] (c :: s) d) (hinsert.cons d)
    · rw [hmin]
      by_cases heq : c = d
      · subst heq
        simpa [replaceCost] using hreplace.cons c
      · simpa [replaceCost, heq] using Edits.more (.replace [] s c d) (hreplace.cons d)

/-! ### No fewer edits are enough -/

@[simp] theorem distance_nil_left (t : List Char) : distance [] t = t.length := by
  rw [distance]

@[simp] theorem distance_nil_right (s : List Char) : distance s [] = s.length := by
  cases s with
  | nil => rw [distance]
  | cons c s => rw [distance]

theorem distance_cons_cons (c d : Char) (s t : List Char) :
    distance (c :: s) (d :: t) = min (min (distance s (d :: t) + 1) (distance (c :: s) t + 1))
      (distance s t + replaceCost c d) := by
  rw [distance]

theorem distance_self (s : List Char) : distance s s = 0 := by
  induction s with
  | nil => simp
  | cons c s ih => simp [distance_cons_cons, ih, replaceCost]

theorem distance_cons_right (s : List Char) (d : Char) (t : List Char) :
    distance s (d :: t) ≤ distance s t + 1 := by
  cases s with
  | nil => simp
  | cons c s =>
    rw [distance_cons_cons]
    omega

theorem distance_cons_left (c : Char) (s t : List Char) :
    distance (c :: s) t ≤ distance s t + 1 := by
  cases t with
  | nil => simp
  | cons d t =>
    rw [distance_cons_cons]
    omega

theorem distance_le_insert (s : List Char) (c : Char) (t : List Char) :
    distance s t ≤ distance (c :: s) t + 1 := by
  induction t with
  | nil =>
    simp only [distance_nil_right, List.length_cons]
    omega
  | cons d t ih =>
    have hright := distance_cons_right s d t
    rw [distance_cons_cons]
    omega

theorem distance_le_replace (c d : Char) (s t : List Char) :
    distance (c :: s) t ≤ distance (d :: s) t + 1 := by
  induction t with
  | nil => simp
  | cons x t ih =>
    have hleft := distance_cons_left c s (x :: t)
    have hright := distance_cons_right (c :: s) x t
    have hboth : distance (c :: s) (x :: t) ≤ distance s t + 1 := by
      have hcost := replaceCost_le c x
      rw [distance_cons_cons]
      omega
    rw [distance_cons_cons d]
    omega

theorem distance_le_cons (h : ∀ t, distance s t ≤ distance u t + 1) (c : Char) (t : List Char) :
    distance (c :: s) t ≤ distance (c :: u) t + 1 := by
  induction t with
  | nil =>
    have hnil := h []
    simp only [distance_nil_right] at hnil
    simp only [distance_nil_right, List.length_cons]
    omega
  | cons d t ih =>
    have hdelete := h (d :: t)
    have hreplace := h t
    rw [distance_cons_cons, distance_cons_cons]
    omega

/-- No edit brings a text nearer to another by more than one. -/
theorem Edit.distance_le (h : Edit s u) (t : List Char) : distance s t ≤ distance u t + 1 := by
  cases h with
  | insert front back c =>
    induction front generalizing t with
    | nil => exact distance_le_insert back c t
    | cons x front ih => exact distance_le_cons ih x t
  | delete front back c =>
    induction front generalizing t with
    | nil => exact distance_cons_left c back t
    | cons x front ih => exact distance_le_cons ih x t
  | replace front back c d =>
    induction front generalizing t with
    | nil => exact distance_le_replace c d back t
    | cons x front ih => exact distance_le_cons ih x t

theorem Edits.distance_le (h : Edits n s t) : distance s t ≤ n := by
  induction h with
  | none s => rw [distance_self]
  | more h _ ih => exact (h.distance_le _).trans (Nat.add_le_add_right ih 1)

theorem isLeast_distance (s t : List Char) : IsLeast {n | Edits n s t} (distance s t) :=
  ⟨edits_distance s t, fun _ h => Edits.distance_le h⟩

/-- Lengths differ by no more than the distance. -/
theorem Edits.length_le (h : Edits n s t) : s.length ≤ t.length + n ∧ t.length ≤ s.length + n := by
  induction h with
  | none s => exact ⟨le_rfl, le_rfl⟩
  | more h _ ih =>
    cases h <;> simp only [List.length_append, List.length_cons] at ih ⊢ <;> omega

/-! ### The recurrence at the other end -/

theorem Edit.reverse (h : Edit s t) : Edit s.reverse t.reverse := by
  cases h with
  | insert front back c => simpa using Edit.insert back.reverse front.reverse c
  | delete front back c => simpa using Edit.delete back.reverse front.reverse c
  | replace front back c d => simpa using Edit.replace back.reverse front.reverse c d

theorem Edits.reverse (h : Edits n s t) : Edits n s.reverse t.reverse := by
  induction h with
  | none s => exact .none s.reverse
  | more h _ ih => exact .more h.reverse ih

theorem distance_reverse (s t : List Char) : distance s.reverse t.reverse = distance s t := by
  apply Nat.le_antisymm
  · exact (edits_distance s t).reverse.distance_le
  · have h := (edits_distance s.reverse t.reverse).reverse
    rw [List.reverse_reverse, List.reverse_reverse] at h
    exact h.distance_le

theorem distance_concat (s t : List Char) (c d : Char) :
    distance (s ++ [c]) (t ++ [d]) =
      min (min (distance s (t ++ [d]) + 1) (distance (s ++ [c]) t + 1))
        (distance s t + replaceCost c d) := by
  rw [← distance_reverse (s ++ [c]) (t ++ [d]), ← distance_reverse s (t ++ [d]),
    ← distance_reverse (s ++ [c]) t, ← distance_reverse s t]
  simp only [List.reverse_append, List.reverse_singleton, List.singleton_append]
  exact distance_cons_cons c d s.reverse t.reverse

/-! ### The rows -/

/-- The row of a text, from a place in the target on: its distances to what stands before the place
and to every longer front of the target. -/
def rowFrom (s front : List Char) : List Char → List Nat
  | [] => [distance s front]
  | d :: back => distance s front :: rowFrom s (front ++ [d]) back

theorem rowFrom_eq_cons (s front back : List Char) :
    rowFrom s front back = distance s front :: (rowFrom s front back).tail := by
  cases back <;> rfl

theorem distanceRow_eq (s front back : List Char) (c : Char) :
    distanceRow c back (rowFrom s front back) (distance (s ++ [c]) front) =
      (rowFrom (s ++ [c]) front back).tail := by
  induction back generalizing front with
  | nil => rfl
  | cons d back ih =>
    have hnext := ih (front ++ [d])
    rw [distance_concat, replaceCost] at hnext
    rw [rowFrom, rowFrom, List.tail_cons, rowFrom_eq_cons (s ++ [c]), ← hnext,
      rowFrom_eq_cons s, distance_concat, replaceCost, distanceRow]

theorem distanceRows_eq (target s cs : List Char) :
    distanceRows target cs s.length (rowFrom s [] target) = rowFrom (s ++ cs) [] target := by
  induction cs generalizing s with
  | nil => rw [distanceRows, List.append_nil]
  | cons c cs ih =>
    have hhead : distance (s ++ [c]) [] = s.length + 1 := by simp
    have hrow := distanceRow_eq s [] target c
    have hnext := ih (s ++ [c])
    rw [rowFrom_eq_cons, ← hrow, hhead, List.length_append, List.length_singleton,
      List.append_assoc, List.singleton_append] at hnext
    rw [distanceRows, hnext]

theorem rowFrom_nil (front back : List Char) :
    rowFrom [] front back = List.range' front.length (back.length + 1) := by
  induction back generalizing front with
  | nil => simp [rowFrom]
  | cons d back ih => simp [rowFrom, ih, List.range'_succ]

theorem getLastD_rowFrom (s front back : List Char) (n : Nat) :
    (rowFrom s front back).getLastD n = distance s (front ++ back) := by
  induction back generalizing front n with
  | nil => simp [rowFrom]
  | cons d back ih => rw [rowFrom, List.getLastD_cons, ih, List.append_assoc, List.singleton_append]

theorem editDistance_eq (a b : String) : editDistance a b = distance a.toList b.toList := by
  have hstart : List.range (b.toList.length + 1) = rowFrom [] [] b.toList := by
    rw [rowFrom_nil, List.length_nil, List.range_eq_range']
  have hrows := distanceRows_eq b.toList [] a.toList
  rw [List.length_nil, List.nil_append] at hrows
  rw [editDistance, hstart, hrows, getLastD_rowFrom, List.nil_append]

/-- The computed distance is the least number of edits that turn one text into the other. -/
theorem isLeast_editDistance (a b : String) :
    IsLeast {n | Edits n a.toList b.toList} (editDistance a b) := by
  rw [editDistance_eq]
  exact isLeast_distance a.toList b.toList

example : editDistance "kitten" "sitting" = 3 := by decide

end Reckoner.Text
