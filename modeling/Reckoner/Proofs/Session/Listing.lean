import Mathlib
import Reckoner.Proofs.Eval.Halting
import Reckoner.Proofs.Eval.Live
import Reckoner.Proofs.Scope.Listing
import Reckoner.Proofs.Session.Binding
import Reckoner.Proofs.Session.Transcript
import Reckoner.Session.Live

/-! # The listing of a session

The listing that a session shows has one line for each binding, in the order of the names, with what the
binding comes to at that moment.  Describing the bindings one after another on one stack gives the same
lines, also when some of them have no value.
-/
namespace Reckoner

open Text (Graphic)

namespace Session

variable {t : Table} {limit : Nat}

inductive Describes (limit : Nat) (t : Table) (e : Expr) : String → Prop where
  | value {v : Value} (h : Eval.eval limit (Scope.ofTable t) e = .ok v) : Describes limit t e v.describe
  | error {err : EvalError} (h : Eval.eval limit (Scope.ofTable t) e = .error (.error err)) :
      Describes limit t e ("error: " ++ err.message)

theorem Describes.unique {e : Expr} {d d' : String} (h : Describes limit t e d)
    (h' : Describes limit t e d') : d = d' := by
  cases h with
  | value h =>
    cases h' with
    | value h' =>
      cases h.symm.trans h'
      rfl
    | error h' => cases h.symm.trans h'
  | error h =>
    cases h' with
    | value h' => cases h.symm.trans h'
    | error h' =>
      cases h.symm.trans h'
      rfl

def RowFor (limit : Nat) (t : Table) (b : String × Expr) (row : String × String) : Prop :=
  row.1 = b.1 ∧ Describes limit t b.2 row.2

theorem Reachable.named (ht : Reachable t) : t.Named Graphic := by
  refine ht.induct named_fresh fun limit t line c name e ht hp hb => ?_
  have h := prepared limit ht line
  rw [hp] at h
  exact ht.insert (h.2 name e hb) (h.1 e (Command.expr?_of_binding? hb))

theorem describes_describeBinding (ht : Reachable t) {n : String} {e : Expr}
    (he : t.get? n = some e) : Describes limit t e (describeBinding limit t e) := by
  have ht : t.WellFormed := ht.wellFormed
  have hends := Eval.eval_ne_exhausted limit (Prelude.bounded _) ht.placed (ht n e he).placed
  rw [describeBinding]
  cases h : Eval.eval limit (Scope.ofTable t) e with
  | ok v => exact .value h
  | error halt =>
    cases halt with
    | error err => exact .error h
    | exhausted => exact absurd h hends

/-- Bindings are described on one stack as each of them is on a stack of its own. -/
theorem describeAll_keeps {stack : LiveStack} (hstack : stack.Within limit)
    (bindings : List (String × Expr)) :
    Stateful.Keeps (LiveStack.Within limit) stack (describeAll t bindings)
      (.ok (bindings.map fun (name, e) => (name, describeBinding limit t e))) := by
  induction bindings generalizing stack with
  | nil => exact .pure hstack []
  | cons b bindings ih =>
    refine (Eval.Live.eval_keeps Prelude.host hstack (Scope.ofTable t) b.2).bind
      (g := fun outcome => .ok ((b.1, describeOutcome outcome) ::
        bindings.map fun (name, e) => (name, describeBinding limit t e))) fun next outcome hnext => ?_
    exact (ih hnext).bind (g := fun rows => .ok ((b.1, describeOutcome outcome) :: rows))
      fun last rows hlast => .pure hlast _

theorem step_symbols (limits : Limits) (s : Session) {line : String}
    (h : Command.parse line = .ok .symbols) :
    (step limits s line).2.1 = showText (listing limits.evaluation s.table) := by
  have hp : prepare limits.checking s.table line = .ok .symbols := prepare_of_binding?_eq_none h rfl
  simp [step, Command.not_blank_of_parse h, hp, showOutcome, accept, bind, Command.binding?]

theorem render_showText (text : String) : (showText text).render false = text ++ "\n" := by
  simp [showText, Painted.render, Piece.render, Piece.styled, Piece.plain]

/-- Listings are complete, sorted and rectangular.  The plain text that is shown for all bindings of a
session is a heading of three lines, a line for each binding in byte order of the names, and a closing rule.
The lines are equally long, and hold the name and what the bound expression comes to, filled up to the
widths of the columns.  Describing the bindings on one stack, however it was left, gives the same rows. -/
theorem listing_framed (limits : Limits) {s : Session} (hs : Reachable s.table) {line : String}
    (hline : Command.parse line = .ok .symbols) :
    ∃ left right ls rows,
      Text.cut ((step limits s line).2.1.render false) = ls ++ [""] ∧
      Listing.Framed left right ("Ident", "Expression") rows ls ∧
      List.Forall₂ (RowFor limits.evaluation s.table) s.table.entries rows ∧
      Table.Lists s.table.get? s.table.entries ∧
      ∀ stack : LiveStack, stack.Within limits.evaluation →
        ∃ after, (describeAll s.table s.table.entries).outcome stack = some (.ok rows, after) := by
  refine ⟨_, _, _, s.table.entries.map fun (name, e) =>
    (name, describeBinding limits.evaluation s.table e), ?_, Listing.framed_lines _ _, ?_,
    s.table.lists_entries, fun stack hstack => ?_⟩
  · rw [step_symbols limits s hline, render_showText, listing, Listing.cut_text (graphic_cells hs.named)]
  · rw [List.forall₂_map_right_iff, List.forall₂_same]
    exact fun b hb => ⟨rfl, describes_describeBinding hs (Table.mem_entries_iff.mp hb)⟩
  · obtain ⟨after, -, h⟩ := describeAll_keeps (t := s.table) hstack s.table.entries
    exact ⟨after, h⟩

/-- A name has no value without room on the stack; its line says so, and others come after it. -/
theorem listing_framed_error :
    let s := ["let a = #"].foldl (execute 16) fresh
    let error := "error: maximum recursion depth exceeded (0)"
    Reachable s.table ∧ Command.parse "symbols" = .ok .symbols ∧
      ∃ left right ls rows,
        Text.cut ((step ⟨16, 0⟩ s "symbols").2.1.render false) = ls ++ [""] ∧
        Listing.Framed left right ("Ident", "Expression") rows ls ∧ ("a", error) ∈ rows ∧
        ∃ after, (describeAll s.table s.table.entries).outcome ⟨[], 0, 0⟩ = some (.ok rows, after) := by
  intro s error
  have hs : Reachable s.table := ⟨16, _, rfl⟩
  have hsymbols : Command.parse "symbols" = .ok .symbols := by cbv
  have hp : prepare 16 Prelude.table "let a = #" = .ok (.define "a" (.symbol "#")) :=
    prepare_of_check (c := .define "a" (.symbol "#")) (by cbv) rfl (by decide +kernel)
  have hexecute : execute 16 fresh "let a = #" = ⟨Prelude.table.insert "a" (.symbol "#"), 0⟩ :=
    execute_of_prepare hp rfl
  have htable : s.table = Prelude.table.insert "a" (.symbol "#") := by
    simp only [s, List.foldl_cons, List.foldl_nil, hexecute]
  clear_value s
  obtain ⟨left, right, ls, rows, hcut, hframed, hrows, hlists, hlive⟩ :=
    listing_framed ⟨16, 0⟩ hs hsymbols
  have ha : ("a", Expr.symbol "#") ∈ s.table.entries := by
    rw [hlists.mem_iff, htable, Table.get?_insert, if_pos rfl]
  obtain ⟨i, hi⟩ := List.mem_iff_get.mp ha
  have hlt : i < rows.length := hrows.length_eq ▸ i.isLt
  obtain ⟨hname, hdescribes⟩ := hrows.get i.isLt hlt
  rw [hi] at hname hdescribes
  have herror : Eval.eval 0 (Scope.ofTable s.table) (.symbol "#") =
      .error (.error ⟨.recursionLimit 0, []⟩) := by
    rw [htable]
    rfl
  have hrow : rows.get ⟨i, hlt⟩ = ("a", error) := by
    refine Prod.ext hname ?_
    rw [hdescribes.unique (.error herror)]
    rfl
  exact ⟨hs, hsymbols, left, right, ls, rows, hcut, hframed, hrow ▸ List.get_mem _ _,
    hlive ⟨[], 0, 0⟩ ⟨rfl, le_rfl⟩⟩

end Session

end Reckoner
