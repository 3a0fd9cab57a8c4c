import Mathlib
import Reckoner.Command.Basic
import Reckoner.Token.Basic

/-! # The grammar of commands

The grammar is stated as relations between the kinds of the tokens of a phrase and what the phrase
denotes.  They do not mention parsing: nothing here looks ahead, prefers one rule to another or
carries the rest of a line.

```text
expression := function | equality
function   := '(' [parameter (',' parameter)*] ')' '->' expression
parameter  := IDENTIFIER ':' type
type       := 'Number' | 'Boolean'
equality   := comparison (('==' | '!=') comparison)*
comparison := sum (('<' | '<=' | '>' | '>=') sum)*
sum        := product (('+' | '-') product)*
product    := negation (('*' | '/') negation)*
negation   := '-' negation | primary
primary    := NUMBER | 'true' | 'false' | '#' | IDENTIFIER
            | IDENTIFIER '(' [expression (',' expression)*] ')' | '(' expression ')'
```
-/
namespace Reckoner.Grammar

open Token (Kind Mark)

/-- The forms of an expression, from the loosest to the tightest. -/
inductive Form where
  | expression
  | equality
  | comparison
  | sum
  | product
  | negation
  | primary
deriving DecidableEq, Repr

/-- The form of the operands, for the forms that chain operands by binary operators. -/
def Form.operand? : Form → Option Form
  | equality => some comparison
  | comparison => some sum
  | sum => some product
  | product => some negation
  | _ => none

/-- The operators that chain the operands of a form, each with its mark. -/
inductive Links : Form → Mark → Operator → Prop where
  | equal : Links .equality .equal .equal
  | notEqual : Links .equality .notEqual .notEqual
  | less : Links .comparison .less .less
  | lessOrEqual : Links .comparison .lessOrEqual .lessOrEqual
  | greater : Links .comparison .greater .greater
  | greaterOrEqual : Links .comparison .greaterOrEqual .greaterOrEqual
  | add : Links .sum .plus .add
  | subtract : Links .sum .minus .subtract
  | multiply : Links .product .star .multiply
  | divide : Links .product .slash .divide

/-- One item or more, with commas between them. -/
inductive Commas {α : Type} (item : List Kind → α → Prop) : List Kind → List α → Prop where
  | one {ks : List Kind} {a : α} (h : item ks a) : Commas item ks [a]
  | more {ks ks' : List Kind} {a : α} {as : List α} (h : item ks a) (hs : Commas item ks' as) :
      Commas item (ks ++ .mark .comma :: ks') (a :: as)

/-- Items with commas between them, or none. -/
inductive Listed {α : Type} (item : List Kind → α → Prop) : List Kind → List α → Prop where
  | none : Listed item [] []
  | some {ks : List Kind} {as : List α} (h : Commas item ks as) : Listed item ks as

inductive TypeName : List Kind → Ty → Prop where
  | number : TypeName [.keyword .numberType] .number
  | boolean : TypeName [.keyword .booleanType] .boolean

inductive Declaration : List Kind → Parameter → Prop where
  | typed {ks : List Kind} {ty : Ty} (n : String) (h : TypeName ks ty) :
      Declaration (.identifier n :: .mark .colon :: ks) ⟨n, ty⟩

/-- What a chain of operands denotes: the operators apply from the left. -/
def chained (first : Expr) (links : List (Operator × Expr)) : Expr :=
  links.foldl (fun left link => .binary link.1 left link.2) first

mutual

/-- A phrase of a form, and the expression it denotes. -/
inductive Phrase : Form → List Kind → Expr → Prop where
  | function {ks body : List Kind} {ps : List Parameter} {e : Expr}
      (hps : Listed Declaration ks ps) (he : Phrase .expression body e) :
      Phrase .expression (.mark .opening :: (ks ++ .mark .closing :: .mark .arrow :: body))
        (.function 0 ps e)
  | operation {ks : List Kind} {e : Expr} (h : Phrase .equality ks e) : Phrase .expression ks e
  | chain {f g : Form} {ks ks' : List Kind} {first : Expr} {links : List (Operator × Expr)}
      (hg : f.operand? = some g) (h : Phrase g ks first) (hs : Tail f ks' links) :
      Phrase f (ks ++ ks') (chained first links)
  | negativeNumber {ks : List Kind} {x : Float} (h : Phrase .negation ks (.number x)) :
      Phrase .negation (.mark .minus :: ks) (.number (-x))
  | negative {ks : List Kind} {e : Expr} (h : Phrase .negation ks e) (he : ∀ x, e ≠ .number x) :
      Phrase .negation (.mark .minus :: ks) (.binary .subtract (.number 0.0) e)
  | plain {ks : List Kind} {e : Expr} (h : Phrase .primary ks e) : Phrase .negation ks e
  | number (x : Float) : Phrase .primary [.number x] (.number x)
  | true : Phrase .primary [.keyword .trueWord] (.boolean true)
  | false : Phrase .primary [.keyword .falseWord] (.boolean false)
  | last : Phrase .primary [.mark .hash] (.symbol lastResult)
  | name (n : String) : Phrase .primary [.identifier n] (.symbol n)
  | call {ks : List Kind} {args : List Expr} (f : String)
      (h : Listed (Phrase .expression) ks args) :
      Phrase .primary (.identifier f :: .mark .opening :: (ks ++ [.mark .closing])) (.call f args)
  | parenthesized {ks : List Kind} {e : Expr} (h : Phrase .expression ks e) :
      Phrase .primary (.mark .opening :: (ks ++ [.mark .closing])) e

/-- The operators of a form that follow its first operand, each with its right operand. -/
inductive Tail : Form → List Kind → List (Operator × Expr) → Prop where
  | nil (f : Form) : Tail f [] []
  | cons {f g : Form} {m : Mark} {op : Operator} {ks ks' : List Kind} {e : Expr}
      {links : List (Operator × Expr)} (hg : f.operand? = some g) (hm : Links f m op)
      (h : Phrase g ks e) (hs : Tail f ks' links) :
      Tail f (.mark m :: (ks ++ ks')) ((op, e) :: links)

end

/-- A whole line, and the command it denotes. -/
inductive Sentence : List Kind → Command → Prop where
  | define {ks : List Kind} {e : Expr} (n : String) (h : Phrase .expression ks e) :
      Sentence (.keyword .letWord :: .identifier n :: .mark .assign :: ks) (.define n e)
  | explain {ks : List Kind} {e : Expr} (h : Phrase .expression ks e) :
      Sentence (.keyword .explain :: ks) (.explain e)
  | symbols : Sentence [.keyword .symbols] .symbols
  | exit : Sentence [.keyword .exit] .exit
  | quit : Sentence [.keyword .quit] .exit
  | expression {ks : List Kind} {e : Expr} (h : Phrase .expression ks e) :
      Sentence ks (.expression e)

end Reckoner.Grammar
