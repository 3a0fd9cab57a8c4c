import Mathlib
import Reckoner.Proofs.Session.Binding
import Reckoner.Proofs.Typing.Exactness

/-! # What the bindings of a session are made of

Lines splice expressions into one another: where a line mentions the name that it binds, the previous
binding takes its place, host code and all.  Whatever has been spliced, the nodes of a binding are
those that a line can spell, and host code in its place.
-/
namespace Reckoner

namespace Expr

inductive Child : Expr → Expr → Prop where
  | left (op : Operator) (l r : Expr) : Child l (.binary op l r)
  | right (op : Operator) (l r : Expr) : Child r (.binary op l r)
  | body (m : Nat) (ps : List Parameter) (b : Expr) : Child b (.function m ps b)
  | argument {a : Expr} {args : List Expr} (f : String) (ha : a ∈ args) : Child a (.call f args)

/-- The expressions that `d` is a node of: itself, and those with a part that it is a node of. -/
inductive Node (d : Expr) : Expr → Prop where
  | self : Node d d
  | inside {c e : Expr} (hc : Child c e) (h : Node d c) : Node d e

namespace WellFormed

variable {e d : Expr}

theorem child {c : Expr} (h : e.WellFormed) (hc : Child c e) :
    c.WellFormed ∨ ∃ code, c = .native code := by
  cases h with
  | number x => cases hc
  | boolean b => cases hc
  | symbol n => cases hc
  | binary op hl hr =>
    cases hc with
    | left => exact .inl hl
    | right => exact .inl hr
  | function m hps hb =>
    cases hc with
    | body => exact .inl hb
  | native m hcode =>
    cases hc with
    | body => exact .inr ⟨_, rfl⟩
  | call f hargs =>
    cases hc with
    | argument _ ha => exact .inl (hargs _ ha)

/-- The nodes of a well-formed expression are well formed or host code. -/
theorem node (h : e.WellFormed) (hd : Node d e) : d.WellFormed ∨ ∃ code, d = .native code := by
  induction hd with
  | self => exact .inl h
  | inside hc hd ih =>
    rcases h.child hc with hwf | ⟨code, rfl⟩
    · exact ih hwf
    · cases hd with
      | self => exact .inr ⟨code, rfl⟩
      | inside hc _ => cases hc

theorem not_parameter (h : e.WellFormed) (p : Parameter) : ¬ Node (.parameter p) e := by
  intro hp
  rcases h.node hp with hwf | ⟨code, heq⟩
  · cases hwf
  · cases heq

theorem parameters (h : e.WellFormed) {m : Nat} {ps : List Parameter} {b : Expr}
    (hf : Node (.function m ps b) e) : ∀ p ∈ ps, p.ty.Simple := by
  rcases h.node hf with hwf | ⟨code, heq⟩
  · cases hwf with
    | function _ hps _ => exact hps
    | native _ hcode => exact fun p hp => .inl (hcode.numbers p hp)
  · cases heq

/-- Host code stands only as the body of a function that it fits. -/
theorem host (h : e.WellFormed) {code : NativeCode} (hd : Node d e)
    (hc : Child (.native code) d) : ∃ m ps, d = .function m ps (.native code) ∧ code.Fits ps := by
  rcases h.node hd with hwf | ⟨code', rfl⟩
  · cases hwf with
    | number x => cases hc
    | boolean b => cases hc
    | symbol n => cases hc
    | binary op hl hr =>
      cases hc with
      | left => cases hl
      | right => cases hr
    | function m hps hb =>
      cases hc with
      | body => cases hb
    | native m hcode =>
      cases hc with
      | body => exact ⟨m, _, rfl, hcode⟩
    | call f hargs =>
      cases hc with
      | argument _ ha => cases hargs _ ha
  · cases hc

end WellFormed

end Expr

/-- Host code that fits some parameters computes a value of its declared type from as many numbers. -/
theorem NativeCode.Fits.run_result {code : NativeCode} {ps : List Parameter} (h : code.Fits ps)
    {xs : List Float} (hlen : xs.length = code.params.length) :
    ∃ y, Prelude.host.run code.host (xs.map .number) = .ok (.number y) ∧
      (Value.number y).simpleType? = some code.result := by
  have hlength : (xs.map Value.number).length = ps.length := by
    rw [List.length_map, hlen, h.names, List.length_map]
  obtain ⟨y, hy⟩ := h.run_numbers hlength (by simp)
  exact ⟨y, hy, congrArg some h.result.symm⟩

namespace Session

/-- A session never loses a name that it starts with. -/
theorem Reachable.get?_ne_none {t : Table} (ht : Reachable t) {n : String}
    (hn : n = lastResult ∨ n ∈ Prelude.names) : t.get? n ≠ none := by
  refine ht.induct (P := fun t => t.get? n ≠ none) ?_ ?_
  · apply Table.get?_insertAll_ne_none
    rcases hn with rfl | hn
    · exact .inr (by simp [Table.get?_insert])
    · exact .inl hn
  · intro limit t line c name e ht _ _
    rw [Table.get?_insert]
    split
    · simp
    · exact ht

/-- Every table of a session is well formed: the names it starts with are bound; no binding has a
declared parameter in it; parameters are numbers and booleans; and host code is only ever the body of
a function whose parameters it reads, in order, and gives a number, as it declares, for as many
numbers. -/
theorem Reachable.bindings_wellFormed {t : Table} (ht : Reachable t) :
    (∀ n, n = lastResult ∨ n ∈ Prelude.names → ∃ e, t.get? n = some e) ∧
      ∀ n e, t.get? n = some e →
        (∀ p, ¬ Expr.Node (.parameter p) e) ∧
        (∀ m ps b, Expr.Node (.function m ps b) e → ∀ p ∈ ps, p.ty = .number ∨ p.ty = .boolean) ∧
        (∀ code, e ≠ .native code) ∧
        ∀ d code, Expr.Node d e → Expr.Child (.native code) d →
          ∃ m ps, d = .function m ps (.native code) ∧ code.params = ps.map (·.name) ∧
            ∀ xs : List Float, xs.length = code.params.length →
              ∃ y, Prelude.host.run code.host (xs.map .number) = .ok (.number y) ∧
                (Value.number y).simpleType? = some code.result := by
  refine ⟨fun n hn => Option.ne_none_iff_exists'.mp (ht.get?_ne_none hn), fun n e he => ?_⟩
  have hwf : e.WellFormed := ht.wellFormed n e he
  refine ⟨hwf.not_parameter, fun m ps b hf => hwf.parameters hf, ?_, ?_⟩
  · rintro code rfl
    cases hwf
  · intro d code hd hc
    obtain ⟨m, ps, hf, hcode⟩ := hwf.host hd hc
    exact ⟨m, ps, hf, hcode.names, fun xs hlen => hcode.run_result hlen⟩

/-- A host function is spliced into the body of a function that takes its name. -/
theorem Reachable.bindings_wellFormed_spliced :
    let t := (["let sin = (x: Number) -> sin"].foldl (execute 16) fresh).table
    let code : NativeCode := ⟨"sin", .number, ["value"], ⟨"sin"⟩⟩
    let sine := Expr.function 0 [⟨"value", .number⟩] (.native code)
    t.get? "sin" = some (.function 0 [⟨"x", .number⟩] sine) ∧
      (∃ e, t.get? lastResult = some e) ∧ ∃ m ps, sine = .function m ps (.native code) ∧
        code.params = ps.map (·.name) ∧ ∀ xs : List Float, xs.length = 1 →
          ∃ y, Prelude.host.run code.host (xs.map .number) = .ok (.number y) ∧
            (Value.number y).simpleType? = some code.result := by
  intro t code sine
  let e := Expr.function 0 [⟨"x", .number⟩] sine
  have hp : prepare 16 Prelude.table "let sin = (x: Number) -> sin" = .ok (.define "sin" e) :=
    prepare_of_check (c := .define "sin" (.function 0 [⟨"x", .number⟩] (.symbol "sin"))) (by cbv) rfl
      (by decide +kernel)
  have hexecute : execute 16 fresh "let sin = (x: Number) -> sin" =
      ⟨Prelude.table.insert "sin" e, 0⟩ := execute_of_prepare hp rfl
  have ht : Reachable t := ⟨16, _, rfl⟩
  have hget : t.get? "sin" = some e := by
    simp only [t, List.foldl_cons, List.foldl_nil, hexecute, Table.get?_insert, if_pos]
  obtain ⟨hnames, hbindings⟩ := Reachable.bindings_wellFormed ht
  obtain ⟨-, -, -, hhost⟩ := hbindings "sin" e hget
  have hsine : Expr.Node sine e := .inside (.body _ _ _) .self
  exact ⟨hget, hnames _ (.inl rfl), hhost sine code hsine (.body _ _ _)⟩

end Session

end Reckoner
