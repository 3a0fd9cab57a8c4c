import Mathlib
import Reckoner.Command.Cursor
import Reckoner.Proofs.Stateful

/-! # Higher bounds

A bound only says where a run with a cursor gets stuck.  A run that does not get stuck is the same with a
higher bound.
-/
namespace Reckoner.Reading

open Stateful (Extends)

variable {α : Type} {bound bound' : Nat}

theorem extends_descend {x x' : Reading α} (h : Extends x x') (since : Nat) :
    Extends (descend x since) (descend x' since) :=
  .bind (.refl _) fun _ => h

theorem extends_separated {item item' : Reading α} (h : Extends item item') (hle : bound ≤ bound')
    (since : Nat) : Extends (separated item bound since) (separated item' bound' since) := by
  induction bound generalizing bound' since with
  | zero => exact .of_stuck _
  | succ bound ih =>
    obtain ⟨bound', rfl⟩ : ∃ k, bound' = k + 1 := ⟨bound' - 1, by omega⟩
    refine .bind (.refl _) fun _ => .bind (.refl _) fun here => .bind h fun a => ?_
    refine .bind (.refl _) fun more => ?_
    cases more with
    | true => exact .bind (ih (by omega) here) fun as => .refl _
    | false => exact .refl _

theorem extends_list {item item' : Nat → Reading α} (h : ∀ since, Extends (item since) (item' since))
    (hle : bound ≤ bound') : Extends (list bound item) (list bound' item') := by
  refine .bind (.refl _) fun here => .bind (.refl _) fun opening => .bind (.refl _) fun done => ?_
  cases done with
  | true => exact .refl _
  | false => exact .bind (extends_separated (h here) hle here) fun as => .refl _

theorem extends_negation {operand operand' : Reading Expr} (h : Extends operand operand')
    (hle : bound ≤ bound') : Extends (negation operand bound) (negation operand' bound') := by
  induction bound generalizing bound' with
  | zero => exact .of_stuck _
  | succ bound ih =>
    obtain ⟨bound', rfl⟩ : ∃ k, bound' = k + 1 := ⟨bound' - 1, by omega⟩
    refine .bind (.refl _) fun here => .bind (.refl _) fun negative => ?_
    cases negative with
    | true => exact .bind (extends_descend (ih (by omega)) here) fun e => .refl _
    | false => exact h

section Levels

variable {operator? : Token.Mark → Option Operator} {operand operand' : Reading Expr}

theorem extends_operators (h : Extends operand operand') (hle : bound ≤ bound') (since : Nat)
    (left : Expr) :
    Extends (operators operator? operand bound since left)
      (operators operator? operand' bound' since left) := by
  induction bound generalizing bound' since left with
  | zero => exact .of_stuck _
  | succ bound ih =>
    obtain ⟨bound', rfl⟩ : ∃ k, bound' = k + 1 := ⟨bound' - 1, by omega⟩
    refine .bind (.refl _) fun item => ?_
    cases item.mark?.bind operator? with
    | none => exact .refl _
    | some op =>
      refine .bind (.refl _) fun _ => .bind (.refl _) fun here => .bind (.refl _) fun _ => ?_
      exact .bind h fun right => ih (by omega) here _

theorem extends_level (h : Extends operand operand') (hle : bound ≤ bound') :
    Extends (level bound operator? operand) (level bound' operator? operand') :=
  .bind (.refl _) fun here => .bind h fun left => extends_operators h hle here left

end Levels

section Nested

variable {nested nested' : Reading Expr}

theorem extends_function (h : Extends nested nested') (hle : bound ≤ bound') :
    Extends (function bound nested) (function bound' nested') := by
  refine .bind (.refl _) fun here => .bind (extends_list (fun _ => .refl _) hle) fun params => ?_
  exact .bind (.refl _) fun _ => .bind (extends_descend h here) fun body => .refl _

theorem extends_call (h : Extends nested nested') (hle : bound ≤ bound') (callee : String) :
    Extends (call bound nested callee) (call bound' nested' callee) :=
  .bind (extends_list (extends_descend h) hle) fun _ => .refl _

theorem extends_primary (h : Extends nested nested') (hle : bound ≤ bound') :
    Extends (primary bound nested) (primary bound' nested') := by
  refine .bind (.refl _) fun here => .bind (.refl _) fun item => ?_
  obtain ⟨_ | kind, span⟩ := item
  · exact .refl (failHere _)
  · cases kind with
    | identifier name =>
      refine .bind (.refl _) fun _ => .bind (.refl _) fun applied => ?_
      cases applied with
      | true => exact extends_call h hle name
      | false => exact .refl (pure _)
    | mark mark =>
      cases mark with
      | opening => exact .bind (.refl _) fun _ => .bind (extends_descend h here) fun e => .refl _
      | _ =>
        dsimp only
        exact .refl _
    | keyword word =>
      cases word
      all_goals
        dsimp only
        exact .refl _
    | _ =>
      dsimp only
      exact .refl _

theorem extends_equality (h : Extends nested nested') (hle : bound ≤ bound') :
    Extends (equality bound nested) (equality bound' nested') :=
  extends_level (extends_level (extends_level (extends_level
    (extends_negation (extends_primary h hle) hle) hle) hle) hle) hle

end Nested

theorem extends_expression (hle : bound ≤ bound') :
    Extends (expression bound) (expression bound') := by
  induction bound generalizing bound' with
  | zero => exact .of_stuck _
  | succ bound ih =>
    obtain ⟨bound', rfl⟩ : ∃ k, bound' = k + 1 := ⟨bound' - 1, by omega⟩
    refine .bind (.refl _) fun starts => ?_
    cases starts with
    | true => exact extends_function (ih (by omega)) hle
    | false => exact extends_equality (ih (by omega)) hle

theorem extends_front (hle : bound ≤ bound') : Extends (front bound) (front bound') := by
  have h : Extends (expression bound) (expression bound') := extends_expression hle
  have hbare : Extends (expression bound >>= fun e => pure (Command.expression e))
      (expression bound' >>= fun e => pure (Command.expression e)) := .bind h fun e => .refl _
  refine .bind (.refl _) fun item => ?_
  obtain ⟨_ | kind, span⟩ := item
  · exact hbare
  · cases kind with
    | keyword word =>
      cases word with
      | letWord =>
        refine .bind (.refl _) fun _ => .bind (.refl _) fun name => .bind (.refl _) fun _ => ?_
        exact .bind h fun e => .refl _
      | explain => exact .bind (.refl _) fun _ => .bind h fun e => .refl _
      | symbols => exact .refl _
      | exit => exact .refl _
      | quit => exact .refl _
      | _ => exact hbare
    | _ => exact hbare

theorem extends_command (hle : bound ≤ bound') : Extends (command bound) (command bound') :=
  .bind (extends_front hle) fun _ => .refl _

end Reckoner.Reading
