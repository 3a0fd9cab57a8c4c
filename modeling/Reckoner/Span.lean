/-! # Spans of a line

A span is a half-open range of byte offsets into one line.
-/
namespace Reckoner

/-- The bytes from `start` up to, not including, `stop`. -/
structure Span where
  start : Nat
  stop : Nat
deriving DecidableEq, Repr

namespace Span

/-- Offsets are counted up to this one; larger ones are cut back to it. -/
def maxOffset : Nat := 0xFFFFFFFF

def ofRange (start stop : Nat) : Span :=
  ⟨min start maxOffset, min stop maxOffset⟩

def point (offset : Nat) : Span :=
  ⟨offset, offset⟩

/-- The number of bytes of a span; a span that ends before it starts has none. -/
def length (s : Span) : Nat :=
  s.stop - s.start

def isEmpty (s : Span) : Bool :=
  decide (s.stop ≤ s.start)

/-- The least span that covers two spans. -/
def merge (s t : Span) : Span :=
  ⟨min s.start t.start, max s.stop t.stop⟩

def text (s : Span) : String :=
  toString s.start ++ ".." ++ toString s.stop

theorem isEmpty_iff_length {s : Span} : s.isEmpty ↔ s.length = 0 := by
  simp only [isEmpty, length, decide_eq_true_eq]
  omega

/-- Offsets within the limit are kept as they are. -/
theorem ofRange_eq {start stop : Nat} (h₁ : start ≤ maxOffset) (h₂ : stop ≤ maxOffset) :
    ofRange start stop = ⟨start, stop⟩ := by
  simp [ofRange, Nat.min_eq_left h₁, Nat.min_eq_left h₂]

end Span

end Reckoner
