/-! # The call stack

Every call and every look at a bound name adds a frame.  A stack has room for a limited number of
frames; what is on it when an error arises is the backtrace of the error.
-/
namespace Reckoner

/-- What is being evaluated: a call, or the expression bound to a name. -/
inductive StackFrame where
  | call (name : String)
  | symbol (name : String)
deriving DecidableEq, Repr

def StackFrame.text : StackFrame → String
  | call n => "call `" ++ n ++ "`"
  | symbol n => "symbol `" ++ n ++ "`"

abbrev Backtrace := List StackFrame

/-- The text of a backtrace: a heading and one numbered line for each frame. -/
def Backtrace.text (b : Backtrace) : String :=
  "stack backtrace:\n" ++
    String.join (b.mapIdx fun i f => "  " ++ toString i ++ ": " ++ f.text ++ "\n")

/-- A stack of frames, the innermost first, with room for some more. -/
structure CallStack where
  frames : Backtrace
  room : Nat
deriving DecidableEq, Repr

namespace CallStack

def ofLimit (limit : Nat) : CallStack :=
  ⟨[], limit⟩

def depth (s : CallStack) : Nat :=
  s.frames.length

def limit (s : CallStack) : Nat :=
  s.frames.length + s.room

def push? (s : CallStack) (f : StackFrame) : Option CallStack :=
  match s.room with
  | 0 => none
  | room + 1 => some ⟨f :: s.frames, room⟩

def pop? (s : CallStack) : Option CallStack :=
  match s.frames with
  | [] => none
  | _ :: frames => some ⟨frames, s.room + 1⟩

def clear (s : CallStack) : CallStack :=
  ofLimit s.limit

theorem limit_of_push? {s t : CallStack} {f : StackFrame} (h : s.push? f = some t) :
    t.limit = s.limit := by
  obtain ⟨frames, room⟩ := s
  cases room with
  | zero => simp [push?] at h
  | succ room =>
    simp only [push?, Option.some.injEq] at h
    subst h
    simp only [limit, List.length_cons]
    omega

theorem pop?_of_push? {s t : CallStack} {f : StackFrame} (h : s.push? f = some t) :
    t.pop? = some s := by
  obtain ⟨frames, room⟩ := s
  cases room with
  | zero => simp [push?] at h
  | succ room =>
    simp only [push?, Option.some.injEq] at h
    subst h
    rfl

/-- A frame is refused exactly when the stack holds as many as it can. -/
theorem push?_eq_none_iff {s : CallStack} {f : StackFrame} :
    s.push? f = none ↔ s.depth = s.limit := by
  obtain ⟨frames, room⟩ := s
  cases room <;> simp [push?, depth, limit]

end CallStack

end Reckoner
