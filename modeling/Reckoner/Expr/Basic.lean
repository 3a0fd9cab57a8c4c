import Reckoner.Ty

/-! # Expressions

An expression is a literal, a reference to a bound name, a binary operation, a function literal, a
call of a bound name, or host code.  Two more things are here: a declared parameter, which stands
for a parameter while the body of its function is checked, and the mark of a function literal,
which tells apart literals that look alike.
-/
namespace Reckoner

/-- A function of the host, known by its symbol.  What it does is for the host to say. -/
structure HostFunction where
  symbol : String
deriving DecidableEq, Repr

structure Parameter where
  name : String
  ty : Ty
deriving DecidableEq, Repr

/-- Host code that stands for the body of a function.  It reads its arguments from the scope, under
the parameter names it lists. -/
structure NativeCode where
  /-- The name that error messages show. -/
  name : String
  /-- The declared type of its result. -/
  result : Ty
  /-- The names under which its arguments are bound, in order. -/
  params : List String
  host : HostFunction
deriving DecidableEq, Repr

inductive Expr where
  | number (value : Float)
  | boolean (value : Bool)
  | symbol (name : String)
  | binary (op : Operator) (left right : Expr)
  | parameter (param : Parameter)
  | function (mark : Nat) (params : List Parameter) (body : Expr)
  | call (callee : String) (args : List Expr)
  | native (code : NativeCode)

/-- The name that holds the result of the last bare expression. -/
def lastResult : String := "#"

namespace Expr

mutual

def size : Expr → Nat
  | binary _ l r => size l + size r + 1
  | function _ _ b => size b + 1
  | call _ args => sizeAll args + 1
  | _ => 1

def sizeAll : List Expr → Nat
  | [] => 0
  | e :: es => size e + sizeAll es

end

theorem size_pos (e : Expr) : 0 < e.size := by
  cases e <;> simp [size]

theorem size_le_sizeAll {e : Expr} {es : List Expr} (h : e ∈ es) : e.size ≤ sizeAll es := by
  induction es with
  | nil => cases h
  | cons d es ih =>
    rw [sizeAll]
    rcases List.mem_cons.mp h with rfl | h
    · omega
    · have := ih h
      omega

mutual

/-- Structural equality.  Numbers are compared as numbers, so that a number that is not a number
differs from itself and both zeros are equal; the marks of function literals do not count. -/
def same : Expr → Expr → Bool
  | number x, number y => x == y
  | boolean a, boolean b => a == b
  | symbol a, symbol b => a == b
  | binary f a b, binary g c d => f == g && same a c && same b d
  | parameter p, parameter q => p == q
  | function _ ps a, function _ qs b => ps == qs && same a b
  | call f as, call g bs => f == g && sameAll as bs
  | native m, native n => m == n
  | _, _ => false

def sameAll : List Expr → List Expr → Bool
  | [], [] => true
  | a :: as, b :: bs => same a b && sameAll as bs
  | _, _ => false

end

/-- A function literal whose body is host code with the same parameters. -/
def nativeFunction (name : String) (params : List Parameter) (result : Ty) (host : HostFunction) :
    Expr :=
  function 0 params (native ⟨name, result, params.map (·.name), host⟩)

def isNative : Expr → Bool
  | native _ => true
  | _ => false

mutual

/-- Numbers the function literals of an expression from `next` on, and gives the next free
number. -/
def stamp (next : Nat) : Expr → Expr × Nat
  | binary op l r =>
    let (l, next) := stamp next l
    let (r, next) := stamp next r
    (binary op l r, next)
  | function _ ps b =>
    let (b, after) := stamp (next + 1) b
    (function next ps b, after)
  | call f args =>
    let (args, next) := stampAll next args
    (call f args, next)
  | e => (e, next)

def stampAll (next : Nat) : List Expr → List Expr × Nat
  | [] => ([], next)
  | e :: es =>
    let (e, next) := stamp next e
    let (es, next) := stampAll next es
    (e :: es, next)

end

end Expr

end Reckoner
