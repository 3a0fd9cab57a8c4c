import Mathlib
import Reckoner.Proofs.Grammar.Completeness
import Reckoner.Proofs.Session.Reachable

/-! # Lines that bind a name

A line that is parsed, and whose expression passes the check once its own name is expanded, makes
one binding.  Such a line is never blank: white space starts no token, and no command starts with a
character that starts none.
-/
namespace Reckoner

open Token (Kind)

namespace Token

/-- The characters that start a token lie between the two parts of white space. -/
theorem toNat_of_lexeme? {c : Char} {cs : List Char} {found : Kind × List Char}
    (h : lexeme? (c :: cs) = some found) : 0x20 < c.toNat ∧ c.toNat < 0x85 := by
  simp only [lexeme?] at h
  split at h
  · rename_i hdigit
    simp only [Char.isDigit, UInt32.le_iff_toNat_le, Bool.and_eq_true, decide_eq_true_eq,
      Char.toNat_val, Char.reduceToNat] at hdigit
    omega
  · split at h
    · rename_i hword
      simp only [isWordStart, Char.isAlpha, Char.isUpper, Char.isLower, UInt32.le_iff_toNat_le,
        Bool.or_eq_true, Bool.and_eq_true, decide_eq_true_eq, beq_iff_eq, Char.toNat_val,
        Char.reduceToNat] at hword
      rcases hword with (hword | hword) | rfl
      · omega
      · omega
      · decide
    · obtain ⟨m, hm, -⟩ := Option.map_eq_some_iff.mp h
      unfold markOf? at hm
      -- One case for each mark, which says what the text starts with, and one for no mark.
      split at hm <;> first
        | (rename_i heq; cases heq; decide)
        | cases hm

theorem lexeme?_of_isBlank {c : Char} (hc : Text.isBlank c = true) (cs : List Char) :
    lexeme? (c :: cs) = none := by
  cases h : lexeme? (c :: cs) with
  | none => rfl
  | some found =>
    have hrange := toNat_of_lexeme? h
    simp only [Text.isBlank, Bool.or_eq_true, Bool.and_eq_true, decide_eq_true_eq, beq_iff_eq] at hc
    omega

theorem kind_of_blank {cs : List Char} (h : ∀ c ∈ cs, Text.isBlank c = true) (offset : Nat) :
    ∀ t ∈ scanFrom offset 0 cs, t.kind = .invalid := by
  induction cs generalizing offset with
  | nil => simp [scanFrom]
  | cons c cs ih =>
    have ih := ih (fun d hd => h d (List.mem_cons_of_mem _ hd)) (offset + c.utf8Size)
    simp only [scanFrom, lexeme?_of_isBlank (h c List.mem_cons_self)]
    split
    · exact ih
    · exact List.forall_mem_cons.mpr ⟨rfl, ih⟩

end Token

theorem Grammar.Sentence.head {ks : List Kind} {c : Command} (h : Sentence ks c) :
    ∃ k ∈ ks, k ≠ .invalid := by
  cases h with
  | define n h => exact ⟨_, List.mem_cons_self, by simp⟩
  | explain h => exact ⟨_, List.mem_cons_self, by simp⟩
  | symbols => exact ⟨_, List.mem_cons_self, by simp⟩
  | exit => exact ⟨_, List.mem_cons_self, by simp⟩
  | quit => exact ⟨_, List.mem_cons_self, by simp⟩
  | expression h =>
    obtain ⟨k, ks', rfl, hk⟩ := h.starts_head
    refine ⟨k, List.mem_cons_self, ?_⟩
    rintro rfl
    cases hk

/-- A line that is parsed is not blank. -/
theorem Command.not_blank_of_parse {line : String} {c : Command} (h : parse line = .ok c) :
    Text.blank line = false := by
  rw [← Bool.not_eq_true]
  intro hblank
  have hsentence := Grammar.sentence_of_parseTokens (mapError_eq_ok_iff.mp h)
  obtain ⟨k, hk, hvalid⟩ := hsentence.head
  obtain ⟨t, ht, rfl⟩ := List.mem_map.mp hk
  exact hvalid (Token.kind_of_blank (List.all_eq_true.mp hblank) 0 t ht)

namespace Session

variable {limit : Nat} {s : Session} {line : String} {c : Command} {name : String} {e : Expr}

theorem parse_of_prepare {t : Table} (h : prepare limit t line = .ok c) :
    ∃ c₀, Command.parse line = .ok c₀ := by
  unfold prepare at h
  split at h
  · cases h
  · exact ⟨_, ‹_›⟩

/-- A prepared command makes its binding. -/
theorem execute_of_prepare (hp : prepare limit s.table line = .ok c)
    (hb : c.binding? = some (name, e)) :
    execute limit s line = ⟨s.table.insert name e, s.rejected⟩ := by
  obtain ⟨c₀, hparse⟩ := parse_of_prepare hp
  simp [execute, Command.not_blank_of_parse hparse, hp, accept, bind, hb]

/-- A command that makes no binding needs no check. -/
theorem prepare_of_binding?_eq_none {t : Table} (hparse : Command.parse line = .ok c)
    (hb : c.binding? = none) : prepare limit t line = .ok c := by
  simp [prepare, hparse, hb]

theorem prepare_of_check {t : Table} (hparse : Command.parse line = .ok c)
    (hb : c.binding? = some (name, e))
    (hcheck : (Typing.check limit (.ofTable t) (expandSelf t name e)).isOk = true) :
    prepare limit t line = .ok (c.withExpr (expandSelf t name e)) := by
  simp only [prepare, hparse, hb]
  split
  · rename_i herror
    rw [herror] at hcheck
    cases hcheck
  · rfl

/-- A definition that does not mention its own name binds its expression as it is written. -/
theorem execute_define {t : Table} {rejected : Nat}
    (hparse : Command.parse line = .ok (.define name e)) (hself : Expr.mentions name e = false)
    (hcheck : (Typing.check limit (.ofTable t) e).isOk = true) :
    execute limit ⟨t, rejected⟩ line = ⟨t.insert name e, rejected⟩ := by
  have hexpand : expandSelf t name e = e := by
    simp [expandSelf, hself]
  have hp : prepare limit t line = .ok (.define name e) := by
    rw [prepare_of_check hparse rfl (by rwa [hexpand]), hexpand]
    rfl
  exact execute_of_prepare hp rfl

end Session

end Reckoner
