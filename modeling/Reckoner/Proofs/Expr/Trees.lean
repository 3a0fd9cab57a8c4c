import Mathlib
import Reckoner.Proofs.Expr.Outline
import Reckoner.Proofs.Expr.RoundTrip
import Reckoner.Proofs.Typing.Captions

/-! # Trees are unambiguous

The label of a node says what kind of node it is, and shows all of it but the nodes below.  The rows of a
function's parameters come before that of its body, which is the last one, and so cannot be taken for it.
Together with the drawn lines, which determine the outline, this says that the tree of an expression
determines the expression, up to the sign of a zero and the marks of function literals.
-/
namespace Reckoner.Expr

open Text (Graphic)

inductive Head where
  | number
  | boolean
  | symbol
  | operator (op : Operator)
  | parameter
  | function
  | call
  | native
deriving DecidableEq

namespace Head

/-- The word that the labels of a kind of nodes start with. -/
def word : Head → String
  | number => "Number"
  | boolean => "Boolean"
  | symbol => "Symbol"
  | operator op => op.name
  | parameter => "Parameter"
  | function => "Function"
  | call => "Call"
  | native => "NativeCode"

def all : List Head :=
  [number, boolean, symbol, parameter, function, call, native] ++ Operator.all.map operator

theorem find?_word (h : Head) : all.find? (·.word == h.word) = some h := by
  cases h with
  | operator op => cases op <;> decide
  | _ => decide

theorem word_injective {h k : Head} (heq : h.word = k.word) : h = k := by
  have hfind := find?_word h
  rw [heq, find?_word k] at hfind
  exact (Option.some.inj hfind).symm

end Head

def head : Expr → Head
  | number _ => .number
  | boolean _ => .boolean
  | symbol _ => .symbol
  | binary op _ _ => .operator op
  | parameter _ => .parameter
  | function _ _ _ => .function
  | call _ _ => .call
  | native _ => .native

/-- The word at the front of a label ends at the bracket or with the label. -/
theorem takeWhile_label (e : Expr) : e.label.toList.takeWhile (· != '<') = e.head.word.toList := by
  cases e with
  | binary op l r =>
    have hname : op.name.toList.takeWhile (· != '<') = op.name.toList := by cases op <;> decide
    exact hname
  | _ => simp [label, parameterLabel, head, Head.word]

theorem head_eq_of_label_eq {a b : Expr} (h : a.label = b.label) : a.head = b.head := by
  apply Head.word_injective
  apply String.toList_inj.mp
  rw [← takeWhile_label, ← takeWhile_label, h]

theorem label_outline (e : Expr) : e.outline.label = e.label := by
  cases e <;> rfl

theorem head_eq_of_outline_eq {a b : Expr} (h : a.outline = b.outline) : a.head = b.head := by
  apply head_eq_of_label_eq
  rw [← label_outline, h, label_outline]

/-- A name that can stand in a line: a word, or the name of the last result. -/
def Nameable (n : String) : Prop :=
  n = lastResult ∨ n.toList ∈ Token.Shape.word

namespace Nameable

variable {n : String}

theorem forall_mem {P : Char → Prop} (hhash : P '#') (hpart : ∀ c, Token.isWordPart c = true → P c)
    (h : Nameable n) : ∀ c ∈ n.toList, P c := by
  rcases h with rfl | h
  · intro c hc
    cases List.mem_singleton.mp hc
    exact hhash
  · obtain ⟨c, cs, hn, hc, hcs⟩ := Token.Shape.mem_word.mp h
    rw [hn, List.forall_mem_cons]
    exact ⟨hpart c (Token.isWordPart_of_isWordStart hc),
      fun d hd => hpart d (List.all_eq_true.mp hcs d hd)⟩

theorem graphic (h : Nameable n) : Graphic n :=
  h.forall_mem (by decide) fun _ hc => Token.toNat_of_isWordPart hc

theorem not_colon (h : Nameable n) : n.toList.all (· != ':') = true := by
  rw [List.all_eq_true]
  refine h.forall_mem (by decide) fun c hc => ?_
  rw [bne_iff_ne]
  rintro rfl
  exact absurd hc (by decide)

end Nameable

/-- A declaration can be read off its label: there is no colon in its name. -/
theorem eq_of_parameterLabel_eq {p q : Parameter} (hp : Nameable p.name) (hq : Nameable q.name)
    (h : parameterLabel p = parameterLabel q) : p = q := by
  obtain ⟨n, ty⟩ := p
  obtain ⟨n', ty'⟩ := q
  have hchars : n.toList ++ ':' :: ' ' :: (ty.caption.toList ++ ['>']) =
      n'.toList ++ ':' :: ' ' :: (ty'.caption.toList ++ ['>']) := by
    simpa [parameterLabel, Parameter.text, ← String.toList_inj] using h
  obtain ⟨hname, hrest⟩ := append_inj_of_head hp.not_colon hq.not_colon (by simp) (by simp) hchars
  obtain ⟨rfl, -⟩ := Ty.eq_of_caption_append (List.tail_eq_of_cons_eq (List.tail_eq_of_cons_eq hrest))
  cases String.toList_inj.mp hname
  rfl

/-- Expressions that can be told by their trees: no declared parameter, no host code and no NaN stands
in them, and their names can stand in a line. -/
inductive Legible : Expr → Prop where
  | number {x : Float} (h : x.isNaN = false) : Legible (.number x)
  | boolean (b : Bool) : Legible (.boolean b)
  | symbol {n : String} (h : Nameable n) : Legible (.symbol n)
  | binary {l r : Expr} (op : Operator) (hl : Legible l) (hr : Legible r) :
      Legible (.binary op l r)
  | function {ps : List Parameter} {b : Expr} (m : Nat) (hps : ∀ p ∈ ps, Nameable p.name)
      (hb : Legible b) : Legible (.function m ps b)
  | call {f : String} {args : List Expr} (hf : Nameable f) (h : ∀ a ∈ args, Legible a) :
      Legible (.call f args)

namespace Legible

variable {a b : Expr}

theorem named (h : a.Legible) : a.Named Graphic := by
  induction h with
  | number _ => exact .number _
  | boolean b => exact .boolean b
  | symbol h => exact .symbol h.graphic
  | binary op _ _ ihl ihr => exact .binary op ihl ihr
  | function m hps _ ih => exact .function m (fun p hp => (hps p hp).graphic) ih
  | call hf _ ih => exact .call hf.graphic ih

/-- Lists whose members are drawn alike, where what is drawn alike is related. -/
theorem forall₂_of_map_eq {α : Type} {R : α → α → Prop} {f : α → Outline} {as bs : List α}
    (hR : ∀ a ∈ as, ∀ b ∈ bs, f a = f b → R a b) (h : as.map f = bs.map f) :
    List.Forall₂ R as bs := by
  induction as generalizing bs with
  | nil =>
    cases List.map_eq_nil_iff.mp h.symm
    exact .nil
  | cons a as ih =>
    obtain ⟨b, bs, rfl, hb, hbs⟩ := List.map_eq_cons_iff.mp h.symm
    refine .cons (hR a List.mem_cons_self b List.mem_cons_self hb.symm) (ih ?_ hbs.symm)
    exact fun x hx y hy => hR x (List.mem_cons_of_mem _ hx) y (List.mem_cons_of_mem _ hy)

/-- The rows of parameters come before the row of a body, which is a single one. -/
theorem eq_of_parameters_append {ps qs : List Parameter} {t u : Outline}
    (hps : ∀ p ∈ ps, Nameable p.name) (hqs : ∀ q ∈ qs, Nameable q.name)
    (h : ps.map (fun p => Outline.node (parameterLabel p) []) ++ [t] =
      qs.map (fun q => Outline.node (parameterLabel q) []) ++ [u]) : ps = qs ∧ t = u := by
  obtain ⟨hrows, hbody⟩ := List.append_inj' h rfl
  refine ⟨?_, List.singleton_inj.mp hbody⟩
  rw [← List.forall₂_eq_eq_eq]
  refine forall₂_of_map_eq (fun p hp q hq hrow => ?_) hrows
  exact eq_of_parameterLabel_eq (hps p hp) (hqs q hq) (congrArg Outline.label hrow)

theorem same_of_outline_eq (ha : a.Legible) (hb : b.Legible) (h : a.outline = b.outline) :
    same a b = true := by
  induction ha generalizing b with
  | @number x hx =>
    have hhead := head_eq_of_outline_eq h
    cases hb with
    | @number y hy =>
      have htext : Numeral.text x = Numeral.text y := by
        simpa [outline, label, ← String.toList_inj] using h
      exact Numeral.beq_of_text_eq hx hy htext
    | _ => cases hhead
  | boolean x =>
    have hhead := head_eq_of_outline_eq h
    cases hb with
    | boolean y =>
      revert h
      cases x <;> cases y <;> simp [outline, label, booleanText, same]
    | _ => cases hhead
  | @symbol n hn =>
    have hhead := head_eq_of_outline_eq h
    cases hb with
    | @symbol n' hn' =>
      have hname : n = n' := by simpa [outline, label, ← String.toList_inj] using h
      simp [same, hname]
    | _ => cases hhead
  | binary op hl hr ihl ihr =>
    have hhead := head_eq_of_outline_eq h
    cases hb with
    | binary op' hl' hr' =>
      cases hhead
      simp only [outline, Outline.node.injEq, List.cons.injEq, and_true, true_and] at h
      simp [same, ihl hl' h.1, ihr hr' h.2]
    | _ => cases hhead
  | function m hps hb ih =>
    have hhead := head_eq_of_outline_eq h
    cases hb with
    | function m' hps' hb' =>
      simp only [outline, Outline.node.injEq] at h
      obtain ⟨rfl, hbody⟩ := eq_of_parameters_append hps hps' h.2
      simp [same, ih hb' hbody]
    | _ => cases hhead
  | @call f args hf hargs ih =>
    have hhead := head_eq_of_outline_eq h
    cases hb with
    | @call f' args' hf' hargs' =>
      simp only [outline, outlines_eq_map, Outline.node.injEq] at h
      have hcallee : f = f' := by simpa [label, ← String.toList_inj] using h.1
      have hsame := forall₂_of_map_eq (fun a ha b hb => ih a ha (hargs' b hb)) h.2
      simp [same, hcallee, sameAll_of_forall₂ hsame]
    | _ => cases hhead

end Legible

/-- The tree of an expression determines it: expressions with the same tree are structurally equal. -/
theorem same_of_tree_eq {a b : Expr} (ha : a.Legible) (hb : b.Legible) (h : a.tree = b.tree) :
    same a b = true := by
  have houtline := Outline.eq_of_text_eq ha.named.outline hb.named.outline h
  exact ha.same_of_outline_eq hb houtline

/-- Function literals with different marks, and with zeros of either sign in them, have one tree. -/
theorem same_of_tree_eq_zeros :
    let zeros (m : Nat) (x : Float) : Expr :=
      .function m [⟨"x", .number⟩, ⟨"#", .function [.boolean] .number⟩]
        (.binary .less (.call "f" [.symbol "x", .boolean true]) (.number x))
    (zeros 0 0.0).Legible ∧ (zeros 4 (-0.0)).Legible ∧ (zeros 0 0.0).tree = (zeros 4 (-0.0)).tree ∧
      same (zeros 0 0.0) (zeros 4 (-0.0)) = true := by
  intro zeros
  have hx : Nameable "x" := .inr (Token.Shape.mem_word.mpr ⟨'x', [], rfl, rfl, rfl⟩)
  have hf : Nameable "f" := .inr (Token.Shape.mem_word.mpr ⟨'f', [], rfl, rfl, rfl⟩)
  have hzeros : ∀ m x, x.isNaN = false → (zeros m x).Legible := by
    intro m x hnan
    refine .function m ?_ (.binary .less (.call hf ?_) (.number hnan))
    · simpa using ⟨hx, .inl rfl⟩
    · simpa using ⟨.symbol hx, .boolean true⟩
  have htree : (zeros 0 0.0).tree = (zeros 4 (-0.0)).tree := by decide +kernel
  have hpositive := hzeros 0 0.0 rfl
  have hnegative := hzeros 4 (-0.0) rfl
  exact ⟨hpositive, hnegative, htree, same_of_tree_eq hpositive hnegative htree⟩

end Reckoner.Expr
