import Reckoner.Expr.Outline
import Reckoner.Session.Basic
import Reckoner.Session.Listing

/-! # What a session shows

Each command shows its outcome after its binding is made: a value, a tree, a listing of the
bindings, or a diagnostic.
-/
namespace Reckoner

inductive Flow where
  | continue
  | exit
deriving DecidableEq, Repr

namespace Session

/-- A text shown as a value, on lines of its own. -/
def showText (text : String) : Painted :=
  [.styled .value text, .plain "\n"]

def showValue (limit : Nat) (t : Table) (e : Expr) : Painted :=
  match Eval.eval limit (Scope.ofTable t) e with
  | .ok v => showText v.describe
  | .error (.error err) => err.diagnostic.report
  | .error .exhausted => []

def describeOutcome : Eval.Result → String
  | .ok v => v.describe
  | .error (.error err) => "error: " ++ err.message
  | .error .exhausted => "error"

def describeBinding (limit : Nat) (t : Table) (e : Expr) : String :=
  describeOutcome (Eval.eval limit (Scope.ofTable t) e)

def listing (limit : Nat) (t : Table) : String :=
  Listing.text ("Ident", "Expression")
    (t.entries.map fun (name, e) => (name, describeBinding limit t e))

def showRejection (r : Rejection) : Painted :=
  match r.code with
  | none => [.plain ("error: " ++ r.message ++ "\n")]
  | some code =>
    let source := r.offset.map fun offset => (r.line, Span.point (min offset Span.maxOffset))
    Diagnostic.report ⟨code, .error, r.message, source, [], r.hints⟩

/-- What a prepared line shows, when `t` is the table after it. -/
def showOutcome (limit : Nat) (t : Table) : Except Rejection Command → Painted
  | .error r => showRejection r
  | .ok .exit => []
  | .ok (.explain e) => showText (Text.trimEnd Text.isBlank e.tree)
  | .ok (.expression e) => showValue limit t e
  | .ok (.define _ e) => showValue limit t e
  | .ok .symbols => showText (listing limit t)

/-- Whether a session goes on after a prepared line. -/
def flowOf : Except Rejection Command → Flow
  | .ok .exit => .exit
  | _ => .continue

def step (limits : Limits) (s : Session) (line : String) : Session × Painted × Flow :=
  if Text.blank line then (s, [], .continue)
  else
    let prepared := prepare limits.checking s.table line
    let next := s.accept prepared
    (next, showOutcome limits.evaluation next.table prepared, flowOf prepared)

/-- Lines in turn, up to the first that leaves the session. -/
def run (limits : Limits) (s : Session) : List String → Session × Painted
  | [] => (s, [])
  | line :: rest =>
    match step limits s line with
    | (s, shown, .exit) => (s, shown)
    | (s, shown, .continue) =>
      let (s, more) := run limits s rest
      (s, shown ++ more)

/-- The exit code of a session: one if a line was rejected. -/
def exitCode (s : Session) : Nat :=
  if s.rejected = 0 then 0 else 1

/-- The state that one line leaves does not depend on what the line shows. -/
theorem step_fst (limits : Limits) (s : Session) (line : String) :
    (step limits s line).1 = execute limits.checking s line := by
  unfold step execute
  split <;> rfl

end Session

end Reckoner
