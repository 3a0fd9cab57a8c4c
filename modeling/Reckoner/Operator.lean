/-! # Binary operators

Each operator belongs to one category, which says what operands it takes, and has a binding
strength, which says where its printed form needs parentheses.
-/
namespace Reckoner

inductive Operator where
  | equal
  | notEqual
  | less
  | lessOrEqual
  | greater
  | greaterOrEqual
  | add
  | subtract
  | multiply
  | divide
deriving DecidableEq, Repr

namespace Operator

/-- What an operator does with its operands. -/
inductive Category where
  /-- Takes two numbers or two booleans. -/
  | equality
  /-- Takes two numbers and compares them. -/
  | comparison
  /-- Takes two numbers and makes a number. -/
  | arithmetic
deriving DecidableEq, Repr

/-- Every operator, from the loosest to the tightest. -/
def all : List Operator :=
  [equal, notEqual, less, lessOrEqual, greater, greaterOrEqual, add, subtract, multiply, divide]

theorem mem_all (op : Operator) : op ∈ all := by
  cases op <;> decide

def category : Operator → Category
  | equal | notEqual => .equality
  | less | lessOrEqual | greater | greaterOrEqual => .comparison
  | add | subtract | multiply | divide => .arithmetic

/-- How an operator is written in a line. -/
def symbol : Operator → String
  | equal => "=="
  | notEqual => "!="
  | less => "<"
  | lessOrEqual => "<="
  | greater => ">"
  | greaterOrEqual => ">="
  | add => "+"
  | subtract => "-"
  | multiply => "*"
  | divide => "/"

/-- The name of an operator's node in an expression tree. -/
def name : Operator → String
  | equal => "Equal"
  | notEqual => "NotEqual"
  | less => "Less"
  | lessOrEqual => "LessOrEqual"
  | greater => "Greater"
  | greaterOrEqual => "GreaterOrEqual"
  | add => "Add"
  | subtract => "Subtract"
  | multiply => "Multiply"
  | divide => "Divide"

/-- Binding strength: the higher, the tighter. -/
def precedence : Operator → Nat
  | equal | notEqual => 1
  | less | lessOrEqual | greater | greaterOrEqual => 2
  | add | subtract => 3
  | multiply | divide => 4

theorem name_injective {a b : Operator} (h : a.name = b.name) : a = b := by
  revert h
  cases a <;> cases b <;> decide

def ofName? (s : String) : Option Operator :=
  all.find? (·.name == s)

theorem ofName?_name (op : Operator) : ofName? op.name = some op := by
  cases op <;> decide

def Category.name : Category → String
  | equality => "equality"
  | comparison => "comparison"
  | arithmetic => "arithmetic"

end Operator

end Reckoner
