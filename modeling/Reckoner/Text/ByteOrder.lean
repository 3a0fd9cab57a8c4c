/-! # The byte order of texts

Names are listed in the order of their UTF-8 encodings.  The encoding of a text is unique, so this
order is strict and total, and two texts that neither precedes are equal.
-/
namespace Reckoner.Text

def bytes (s : String) : List UInt8 :=
  s.toByteArray.data.toList

theorem bytes_injective {a b : String} (h : bytes a = bytes b) : a = b :=
  String.toByteArray_inj.mp (ByteArray.ext (Array.toList_inj.mp h))

/-- One text precedes another when its encoding comes first in lexicographic order. -/
def Precedes (a b : String) : Prop :=
  bytes a < bytes b

instance : DecidableRel Precedes :=
  fun a b => inferInstanceAs (Decidable (bytes a < bytes b))

theorem Precedes.irrefl (a : String) : ¬ Precedes a a :=
  List.lt_irrefl (bytes a)

theorem Precedes.trans {a b c : String} (hab : Precedes a b) (hbc : Precedes b c) :
    Precedes a c :=
  List.lt_trans hab hbc

theorem Precedes.ne {a b : String} (h : Precedes a b) : a ≠ b :=
  fun e => Precedes.irrefl b (e ▸ h)

theorem Precedes.asymm {a b : String} (hab : Precedes a b) : ¬ Precedes b a :=
  fun hba => Precedes.irrefl a (hab.trans hba)

/-- Two texts that are not in order either way are the same text. -/
theorem eq_of_not_precedes {a b : String} (hab : ¬ Precedes a b) (hba : ¬ Precedes b a) :
    a = b :=
  bytes_injective (List.le_antisymm hba hab)

def order (a b : String) : Ordering :=
  if Precedes a b then .lt else if Precedes b a then .gt else .eq

theorem order_eq_eq_iff {a b : String} : order a b = .eq ↔ a = b := by
  unfold order
  split
  · rename_i h
    exact ⟨fun e => absurd e (by decide), fun e => absurd e h.ne⟩
  · split
    · rename_i h
      exact ⟨fun e => absurd e (by decide), fun e => absurd e.symm h.ne⟩
    · rename_i hab hba
      exact ⟨fun _ => eq_of_not_precedes hab hba, fun _ => rfl⟩

end Reckoner.Text
