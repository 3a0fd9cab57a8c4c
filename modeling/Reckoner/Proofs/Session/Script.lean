import Mathlib
import Reckoner.Proofs.Session.Binding
import Reckoner.Session.Console

/-! # Scripts

A script is a list of lines, which a session takes in turn up to the first that leaves it.  What a
line does depends on the table alone, so a line that leaves the table as it is can be taken out of a
script, and every other line then has the same turn as before: it meets the same table, shows the
same text and leaves the same table behind.
-/
namespace Reckoner.Session

/-- What happens at one line of a script. -/
structure Turn where
  before : Table
  line : String
  shown : Painted
  after : Table

/-- The turns of a script: one for each line that is executed. -/
def turns (limits : Limits) (s : Session) : List String → List Turn
  | [] => []
  | line :: rest =>
    let (next, shown, flow) := step limits s line
    ⟨s.table, line, shown, next.table⟩ :: if flow = .exit then [] else turns limits next rest

def rejects (limit : Nat) (t : Table) (line : String) : Bool :=
  !Text.blank line && !(prepare limit t line).isOk

/-- Whether a line is blank, is rejected, or asks for nothing but to be shown something. -/
def traceless (limit : Nat) (t : Table) (line : String) : Bool :=
  Text.blank line ||
    match prepare limit t line with
    | .error _ => true
    | .ok (.explain _) => true
    | .ok .symbols => true
    | .ok _ => false

/-- A script without the lines that leave no trace.  The lines after one that leaves the session are
never executed, so there is nothing to say which of them are kept: `tail` chooses. -/
def pruned (limits : Limits) (tail : List String → List String) (s : Session) :
    List String → List String
  | [] => []
  | line :: rest =>
    let (next, _, flow) := step limits s line
    if traceless limits.checking s.table line then pruned limits tail next rest
    else line :: if flow = .exit then tail rest else pruned limits tail next rest

/-- What a line does to a session: nothing if it is blank, one more rejection, or its command. -/
inductive Does (limits : Limits) (s : Session) (line : String) : Session × Painted × Flow → Prop where
  | blank (h : Text.blank line = true) : Does limits s line (s, [], .continue)
  | rejected {r : Rejection} (hblank : Text.blank line = false)
      (h : prepare limits.checking s.table line = .error r) :
      Does limits s line (⟨s.table, s.rejected + 1⟩, showRejection r, .continue)
  | accepted {c : Command} (hblank : Text.blank line = false)
      (h : prepare limits.checking s.table line = .ok c) :
      Does limits s line (⟨bind s.table c, s.rejected⟩,
        showOutcome limits.evaluation (bind s.table c) (.ok c), flowOf (.ok c))

theorem does_step (limits : Limits) (s : Session) (line : String) :
    Does limits s line (step limits s line) := by
  unfold step
  split
  · rename_i hblank
    exact .blank hblank
  · rename_i hblank
    rw [Bool.not_eq_true] at hblank
    cases h : prepare limits.checking s.table line with
    | error r => exact .rejected hblank h
    | ok c => exact .accepted hblank h

section Step

variable {limits : Limits} {s s' : Session} {line : String}

/-- What a line shows, and the table that it leaves, depend on the table alone. -/
theorem step_of_table_eq (limits : Limits) (h : s'.table = s.table) (line : String) :
    (step limits s' line).2 = (step limits s line).2 ∧
      (step limits s' line).1.table = (step limits s line).1.table := by
  obtain ⟨t, rejected⟩ := s
  obtain ⟨_, rejected'⟩ := s'
  cases h
  unfold step
  split
  · exact ⟨rfl, rfl⟩
  · cases prepare limits.checking t line <;> exact ⟨rfl, rfl⟩

theorem step_of_traceless (h : traceless limits.checking s.table line = true) :
    (step limits s line).1.table = s.table ∧ (step limits s line).2.2 = .continue := by
  have hstep := does_step limits s line
  generalize step limits s line = outcome at hstep ⊢
  cases hstep with
  | blank _ => exact ⟨rfl, rfl⟩
  | rejected _ _ => exact ⟨rfl, rfl⟩
  | @accepted c hblank hp =>
    simp only [traceless, hblank, hp, Bool.false_or] at h
    cases c with
    | explain e => exact ⟨rfl, rfl⟩
    | symbols => exact ⟨rfl, rfl⟩
    | exit => cases h
    | expression e => cases h
    | define name e => cases h

theorem step_rejected (limits : Limits) (s : Session) (line : String) :
    (step limits s line).1.rejected =
      s.rejected + if rejects limits.checking s.table line then 1 else 0 := by
  have hstep := does_step limits s line
  generalize step limits s line = outcome at hstep ⊢
  cases hstep with
  | blank hblank => simp [rejects, hblank]
  | rejected hblank hp => simp [rejects, hblank, hp, Except.isOk, Except.toBool]
  | accepted hblank hp => simp [rejects, hblank, hp, Except.isOk, Except.toBool]

/-- A line that is parsed as a binding and not rejected makes that binding, and no other. -/
theorem step_table_of_binding {c : Command} {name : String} {e : Expr}
    (hparse : Command.parse line = .ok c) (hb : c.binding? = some (name, e))
    (h : rejects limits.checking s.table line = false) :
    (step limits s line).1.table = s.table.insert name (expandSelf s.table name e) := by
  have hblank := Command.not_blank_of_parse hparse
  have hp : prepare limits.checking s.table line =
      .ok (c.withExpr (expandSelf s.table name e)) := by
    simp only [rejects, hblank, prepare, hparse, hb, Bool.not_false, Bool.true_and] at h ⊢
    split at h
    · cases h
    · rfl
  rw [step_fst, execute_of_prepare hp (Command.binding?_withExpr _ hb)]

theorem step_flow_of_exit (h : Command.parse line = .ok .exit) :
    (step limits s line).2.2 = .exit := by
  have hp : prepare limits.checking s.table line = .ok .exit := prepare_of_binding?_eq_none h rfl
  simp [step, Command.not_blank_of_parse h, hp, flowOf]

end Step

section Run

variable {limits : Limits} {s s' : Session}

theorem run_cons (limits : Limits) (s : Session) (line : String) (rest : List String) :
    run limits s (line :: rest) =
      if (step limits s line).2.2 = .exit then ((step limits s line).1, (step limits s line).2.1)
      else
        ((run limits (step limits s line).1 rest).1,
          (step limits s line).2.1 ++ (run limits (step limits s line).1 rest).2) := by
  rw [run]
  obtain ⟨next, shown, flow⟩ := step limits s line
  cases flow <;> rfl

theorem exists_step_of_mem_turns {lines : List String} {u : Turn} (h : u ∈ turns limits s lines) :
    ∃ s₀ line,
      u = ⟨s₀.table, line, (step limits s₀ line).2.1, (step limits s₀ line).1.table⟩ := by
  induction lines generalizing s with
  | nil => cases h
  | cons line rest ih =>
    rw [turns] at h
    rcases List.mem_cons.mp h with rfl | h
    · exact ⟨s, line, rfl⟩
    · split at h
      · cases h
      · exact ih h

/-- A script shows what its turns show. -/
theorem run_snd (limits : Limits) (s : Session) (lines : List String) :
    (run limits s lines).2 = (turns limits s lines).flatMap (·.shown) := by
  induction lines generalizing s with
  | nil => rfl
  | cons line rest ih =>
    rw [run_cons, turns, List.flatMap_cons]
    split
    · simp
    · rw [ih]

theorem run_rejected (limits : Limits) (s : Session) (lines : List String) :
    (run limits s lines).1.rejected =
      s.rejected + (turns limits s lines).countP fun u => rejects limits.checking u.before u.line := by
  induction lines generalizing s with
  | nil => rfl
  | cons line rest ih =>
    rw [run_cons, turns, List.countP_cons]
    split
    · simp [step_rejected]
    · rw [ih, step_rejected]
      dsimp only
      omega

/-- Nothing comes after a line that leaves the session. -/
theorem run_append_exit {line : String} (h : Command.parse line = .ok .exit) (limits : Limits)
    (s : Session) (pre post : List String) :
    run limits s (pre ++ line :: post) = run limits s (pre ++ [line]) := by
  induction pre generalizing s with
  | nil => simp only [List.nil_append, run_cons, step_flow_of_exit h, if_true]
  | cons first pre ih => simp only [List.cons_append, run_cons, ih]

/-- Without the lines that leave no trace, a script has the same turns at all other lines and ends
with the same table. -/
theorem turns_pruned (limits : Limits) (tail : List String → List String) (lines : List String)
    (h : s'.table = s.table) :
    turns limits s' (pruned limits tail s lines) =
        (turns limits s lines).filter (fun u => !traceless limits.checking u.before u.line) ∧
      (run limits s' (pruned limits tail s lines)).1.table = (run limits s lines).1.table := by
  -- The session of the pruned script has rejected fewer lines, so only the tables are the same.
  induction lines generalizing s s' with
  | nil => exact ⟨rfl, h⟩
  | cons line rest ih =>
    rw [pruned, turns, run_cons]
    obtain ⟨hshown, htable⟩ := step_of_table_eq limits h line
    cases htraceless : traceless limits.checking s.table line with
    | true =>
      obtain ⟨hsame, hflow⟩ := step_of_traceless htraceless
      simp only [hflow, reduceCtorEq, if_true, if_false]
      rw [List.filter_cons_of_neg (by simp [htraceless])]
      exact ih (h.trans hsame.symm)
    | false =>
      simp only [Bool.false_eq_true, if_false]
      rw [List.filter_cons_of_pos (by simp [htraceless]), turns, run_cons]
      simp only [hshown, htable, h]
      split
      · exact ⟨rfl, htable⟩
      · obtain ⟨hturns, hrun⟩ := ih htable
        rw [hturns, hrun]
        exact ⟨rfl, rfl⟩

/-- The exit code tells whether a line was rejected. -/
theorem exitCode_run_fresh (limits : Limits) (lines : List String) :
    (run limits fresh lines).1.exitCode =
      if (turns limits fresh lines).any fun u => rejects limits.checking u.before u.line
      then 1 else 0 := by
  have hrejected := run_rejected limits fresh lines
  rw [show fresh.rejected = 0 from rfl, Nat.zero_add] at hrejected
  rw [exitCode, hrejected]
  cases hany : (turns limits fresh lines).any fun u => rejects limits.checking u.before u.line with
  | true =>
    have hpos := List.countP_pos_iff.mpr (List.any_eq_true.mp hany)
    rw [if_neg (Nat.ne_of_gt hpos), if_pos rfl]
  | false =>
    rw [if_pos (List.countP_eq_zero.mpr (List.any_eq_false.mp hany)), if_neg Bool.false_ne_true]

end Run

/-- Lines that are blank, rejected or only to be shown something leave no trace in a script.  Without
them the script has the same turns at its other lines, and ends with the same table.  What a script
shows is what its turns show; a turn that binds a name makes no other binding; nothing comes after a
line that leaves the session; and the exit code is one if and only if a line was rejected. -/
theorem run_fresh_pruned (limits : Limits) (tail : List String → List String)
    (lines : List String) :
    turns limits fresh (pruned limits tail fresh lines) =
        (turns limits fresh lines).filter (fun u => !traceless limits.checking u.before u.line) ∧
      (run limits fresh (pruned limits tail fresh lines)).1.table =
        (run limits fresh lines).1.table ∧
      (run limits fresh lines).2 = (turns limits fresh lines).flatMap (·.shown) ∧
      (∀ u ∈ turns limits fresh lines, ∀ c name e, Command.parse u.line = .ok c →
        c.binding? = some (name, e) → rejects limits.checking u.before u.line = false →
          ∀ n, u.after.get? n =
            if n = name then some (expandSelf u.before name e) else u.before.get? n) ∧
      (∀ pre line post, lines = pre ++ line :: post → Command.parse line = .ok .exit →
        run limits fresh lines = run limits fresh (pre ++ [line])) ∧
      (run limits fresh lines).1.exitCode =
        if (turns limits fresh lines).any fun u => rejects limits.checking u.before u.line
        then 1 else 0 := by
  obtain ⟨hturns, htable⟩ := turns_pruned limits tail lines (rfl : fresh.table = fresh.table)
  refine ⟨hturns, htable, run_snd limits fresh lines, ?_, ?_, exitCode_run_fresh limits lines⟩
  · intro u hu c name e hparse hb haccepted n
    obtain ⟨s, line, rfl⟩ := exists_step_of_mem_turns hu
    dsimp only
    rw [step_table_of_binding hparse hb haccepted, Table.get?_insert]
  · rintro pre line post rfl hexit
    exact run_append_exit hexit limits fresh pre post

end Reckoner.Session
