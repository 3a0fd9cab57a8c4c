import Reckoner.Expr.Substitution

/-! # Expressions as nodes in memory

In memory an expression is a node with an identity, and expressions can have nodes in common.
Substitution looks at identities only to tell whether something below a node has changed, keeps
the node if nothing has, and otherwise makes a new one, with the next identity that is free.
-/
namespace Reckoner

/-- An expression whose nodes have identities. -/
inductive Node where
  | number (id : Nat) (value : Float)
  | boolean (id : Nat) (value : Bool)
  | symbol (id : Nat) (name : String)
  | binary (id : Nat) (op : Operator) (left right : Node)
  | parameter (id : Nat) (param : Parameter)
  | function (id : Nat) (mark : Nat) (params : List Parameter) (body : Node)
  | call (id : Nat) (callee : String) (args : List Node)
  | native (id : Nat) (code : NativeCode)

namespace Node

def id : Node → Nat
  | number i _ => i
  | boolean i _ => i
  | symbol i _ => i
  | binary i _ _ _ => i
  | parameter i _ => i
  | function i _ _ _ => i
  | call i _ _ => i
  | native i _ => i

mutual

/-- The expression without the identities. -/
def expr : Node → Expr
  | number _ x => .number x
  | boolean _ b => .boolean b
  | symbol _ n => .symbol n
  | binary _ op l r => .binary op (expr l) (expr r)
  | parameter _ p => .parameter p
  | function _ m ps b => .function m ps (expr b)
  | call _ f args => .call f (exprs args)
  | native _ c => .native c

def exprs : List Node → List Expr
  | [] => []
  | e :: es => expr e :: exprs es

end

def children : Node → List Node
  | binary _ _ l r => [l, r]
  | function _ _ _ b => [b]
  | call _ _ args => args
  | _ => []

/-- The node at the end of a path, which tells for each level which child to go to. -/
def at? : List Nat → Node → Option Node
  | [], e => some e
  | i :: path, e => e.children[i]?.bind (at? path)

mutual

/-- The nodes of an expression that has been read, with identities from `next` on, and the next
free one. -/
def ofExpr (next : Nat) : Expr → Node × Nat
  | .number x => (number next x, next + 1)
  | .boolean b => (boolean next b, next + 1)
  | .symbol n => (symbol next n, next + 1)
  | .binary op l r =>
    let (l, next) := ofExpr next l
    let (r, next) := ofExpr next r
    (binary next op l r, next + 1)
  | .parameter p => (parameter next p, next + 1)
  | .function m ps b =>
    let (b, next) := ofExpr next b
    (function next m ps b, next + 1)
  | .call f args =>
    let (args, next) := ofExprs next args
    (call next f args, next + 1)
  | .native c => (native next c, next + 1)

def ofExprs (next : Nat) : List Expr → List Node × Nat
  | [] => ([], next)
  | e :: es =>
    let (e, next) := ofExpr next e
    let (es, next) := ofExprs next es
    (e :: es, next)

end

mutual

/-- A node with its free symbols `name` replaced by a node, and the next free identity. -/
def substitute (name : String) (replacement : Node) (next : Nat) : Node → Node × Nat
  | symbol i n => if n = name then (replacement, next) else (symbol i n, next)
  | binary i op l r =>
    let (l', next) := substitute name replacement next l
    let (r', next) := substitute name replacement next r
    if l'.id = l.id ∧ r'.id = r.id then (binary i op l r, next)
    else (binary next op l' r', next + 1)
  | function i m ps b =>
    if Expr.declares ps name then (function i m ps b, next)
    else
      let (b', next) := substitute name replacement next b
      if b'.id = b.id then (function i m ps b, next) else (function next m ps b', next + 1)
  | call i f args =>
    let (args', next) := substituteAll name replacement next args
    if args'.map id = args.map id then (call i f args, next) else (call next f args', next + 1)
  | e => (e, next)

def substituteAll (name : String) (replacement : Node) (next : Nat) : List Node → List Node × Nat
  | [] => ([], next)
  | e :: es =>
    let (e, next) := substitute name replacement next e
    let (es, next) := substituteAll name replacement next es
    (e :: es, next)

end

end Node

end Reckoner
