import Reckoner.Expr.Printer

/-! # Expression trees as text

An outline is a tree of labels.  It is drawn one label a line, each below its parent and behind
the connectors of its ancestors.  The outline of an expression lists the parameters of a function
literal before its body.
-/
namespace Reckoner

inductive Outline where
  | node (label : String) (children : List Outline)

namespace Outline

def label : Outline → String
  | node l _ => l

mutual

/-- The lines below a node, where `margin` draws its ancestors. -/
def descendants (margin : String) : Outline → List String
  | node _ children => rows margin children

/-- The lines of a list of siblings and all that is below them. -/
def rows (margin : String) : List Outline → List String
  | [] => []
  | [t] => (margin ++ "└── " ++ t.label) :: descendants (margin ++ "    ") t
  | t :: ts => (margin ++ "├── " ++ t.label) :: descendants (margin ++ "│   ") t ++ rows margin ts

end

/-- All lines of an outline, each ended by a line feed. -/
def text (t : Outline) : String :=
  String.join ((t.label :: t.descendants "").map (· ++ "\n"))

end Outline

namespace Expr

def parameterLabel (p : Parameter) : String :=
  "Parameter<" ++ p.text ++ ">"

def label : Expr → String
  | number x => "Number<" ++ Numeral.text x ++ ">"
  | boolean b => "Boolean<" ++ booleanText b ++ ">"
  | symbol n => "Symbol<" ++ n ++ ">"
  | binary op _ _ => op.name
  | parameter p => parameterLabel p
  | function _ _ _ => "Function"
  | call f _ => "Call<" ++ f ++ ">"
  | native code => "NativeCode<" ++ code.result.caption ++ ">"

mutual

def outline : Expr → Outline
  | binary op l r => .node op.name [outline l, outline r]
  | function m ps b =>
    .node (function m ps b).label (ps.map (fun p => .node (parameterLabel p) []) ++ [outline b])
  | call f args => .node (call f args).label (outlines args)
  | e => .node e.label []

def outlines : List Expr → List Outline
  | [] => []
  | e :: es => outline e :: outlines es

end

def tree (e : Expr) : String :=
  e.outline.text

end Expr

end Reckoner
