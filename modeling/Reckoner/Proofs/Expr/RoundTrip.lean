import Mathlib
import Reckoner.Expr.Printer
import Reckoner.Proofs.Expr.WellFormed
import Reckoner.Proofs.Grammar.Completeness
import Reckoner.Proofs.Numeral

/-! # What is printed is parsed again

The text of an expression is scanned to a phrase of the grammar, whose form is as tight as the
expression binds.  An operand that binds too loose is put in parentheses, which make it as tight as
can be; one that binds tight enough is also a phrase of every looser form.  So the text of a source
expression is parsed to an expression that is structurally equal to it.
-/
namespace Reckoner

open Grammar
open Token (Kind Mark kinds Breaks Reads IsName breaks_cons)

namespace Grammar

/-- The form of the expressions that bind as tight as operators of some precedence. -/
def Form.ofPrecedence : Nat → Form
  | 0 => .expression
  | 1 => .equality
  | 2 => .comparison
  | 3 => .sum
  | 4 => .product
  | _ => .negation

variable {ks ks' : List Kind} {e l r : Expr}

theorem Phrase.single {f g : Form} (hg : f.operand? = some g) (h : Phrase g ks e) :
    Phrase f ks e := by
  simpa [chained] using Phrase.chain hg h (.nil f)

/-- A phrase is also a phrase of every looser form. -/
theorem Phrase.loosen {p q : Nat} (hpq : p ≤ q) (h : Phrase (.ofPrecedence q) ks e) :
    Phrase (.ofPrecedence p) ks e := by
  induction q with
  | zero => rwa [Nat.le_zero.mp hpq]
  | succ q ih =>
    rcases Nat.lt_or_eq_of_le hpq with hlt | rfl
    · apply ih (Nat.le_of_lt_succ hlt)
      match q with
      | 0 => exact .operation h
      | 1 => exact .single rfl h
      | 2 => exact .single rfl h
      | 3 => exact .single rfl h
      | 4 => exact .single rfl h
      | _ + 5 => exact h
    · exact h

theorem Tail.snoc : ∀ {f g : Form} {m : Mark} {op : Operator} {ks ks' : List Kind} {e : Expr}
    {links : List (Operator × Expr)}, Tail f ks links → f.operand? = some g → Links f m op →
      Phrase g ks' e → Tail f (ks ++ .mark m :: ks') (links ++ [(op, e)])
  | _, _, _, _, _, _, _, _, .nil f, hg, hm, h => by
    simpa using Tail.cons hg hm h (.nil f)
  | _, _, _, _, _, _, _, _, .cons hg' hm' h' hs, hg, hm, h => by
    simpa using Tail.cons hg' hm' h' (hs.snoc hg hm h)

/-- A chain of operands goes on to the right. -/
theorem Phrase.link {f g : Form} {m : Mark} {op : Operator} (h : Phrase f ks l)
    (hg : f.operand? = some g) (hm : Links f m op) (hr : Phrase g ks' r) :
    Phrase f (ks ++ .mark m :: ks') (.binary op l r) := by
  cases h with
  | chain hg' h hs =>
    have hchain := Phrase.chain hg' h (hs.snoc hg hm hr)
    simpa [chained] using hchain
  | _ => cases hg

end Grammar

def Operator.mark : Operator → Mark
  | equal => .equal
  | notEqual => .notEqual
  | less => .less
  | lessOrEqual => .lessOrEqual
  | greater => .greater
  | greaterOrEqual => .greaterOrEqual
  | add => .plus
  | subtract => .minus
  | multiply => .star
  | divide => .slash

theorem Operator.text_mark (op : Operator) : op.mark.text = op.symbol := by
  cases op <;> rfl

theorem Operator.links (op : Operator) : Links (.ofPrecedence op.precedence) op.mark op := by
  cases op <;> constructor

theorem Operator.operand_form (op : Operator) : (Form.ofPrecedence op.precedence).operand? =
    some (.ofPrecedence (op.precedence + 1)) := by
  cases op <;> rfl

namespace Expr

/-- The expressions that can be written in a line, numbers being finite. -/
inductive Printable : Expr → Prop where
  | number {x : Float} (h : x.isFinite = true) : Printable (.number x)
  | boolean (b : Bool) : Printable (.boolean b)
  | symbol {n : String} (h : n = lastResult ∨ IsName n) : Printable (.symbol n)
  | binary {l r : Expr} (op : Operator) (hl : Printable l) (hr : Printable r) :
      Printable (.binary op l r)
  | call {f : String} {args : List Expr} (hf : IsName f) (h : ∀ a ∈ args, Printable a) :
      Printable (.call f args)
  | function {ps : List Parameter} {b : Expr} (m : Nat)
      (hps : ∀ p ∈ ps, IsName p.name ∧ p.ty.Simple) (hb : Printable b) :
      Printable (.function m ps b)

/-- A text is scanned to a phrase, as tight as a precedence, that denotes an expression. -/
def Denoted (p : Nat) (text : String) (e : Expr) : Prop :=
  ∃ ks d, Reads text.toList ks ∧ Phrase (.ofPrecedence p) ks d ∧ same d e = true

namespace Denoted

variable {p q : Nat} {text : String} {e : Expr}

theorem loosen (hpq : p ≤ q) (h : Denoted q text e) : Denoted p text e := by
  obtain ⟨ks, d, hreads, hphrase, hsame⟩ := h
  exact ⟨ks, d, hreads, hphrase.loosen hpq, hsame⟩

theorem parenthesized (h : Denoted 0 text e) : Denoted 5 ("(" ++ text ++ ")") e := by
  obtain ⟨ks, d, hreads, hphrase, hsame⟩ := h
  refine ⟨_, d, fun rest hrest => ?_, .plain (.parenthesized hphrase), hsame⟩
  have hchars : ("(" ++ text ++ ")").toList ++ rest = '(' :: (text.toList ++ ')' :: rest) := by
    simp
  have hinner := hreads (')' :: rest) (breaks_cons rest (by decide) (by decide))
  rw [hchars, Token.kinds_opening, hinner, Token.kinds_closing]
  simp

/-- An operand binds tight enough, by itself or in parentheses. -/
theorem operand {parens : Bool} (h : Denoted q text e) (hp : p ≤ 5) (hq : parens = false → p ≤ q) :
    Denoted p (operand parens text) e := by
  cases parens with
  | false => exact h.loosen (hq rfl)
  | true => exact (h.loosen (Nat.zero_le q)).parenthesized.loosen hp

theorem binary {op : Operator} {l r : Expr} {left right : String}
    (hl : Denoted op.precedence left l) (hr : Denoted (op.precedence + 1) right r) :
    Denoted op.precedence (left ++ " " ++ op.symbol ++ " " ++ right) (.binary op l r) := by
  obtain ⟨ks, d, hreads, hphrase, hsame⟩ := hl
  obtain ⟨ks', d', hreads', hphrase', hsame'⟩ := hr
  have hlink := hphrase.link op.operand_form op.links hphrase'
  refine ⟨_, _, fun rest hrest => ?_, hlink, by simp [same, hsame, hsame']⟩
  have hchars : (left ++ " " ++ op.symbol ++ " " ++ right).toList ++ rest =
      left.toList ++ ' ' :: (op.mark.text.toList ++ ' ' :: (right.toList ++ rest)) := by
    simp [op.text_mark]
  rw [hchars, hreads _ (breaks_cons _ (by decide) (by decide)), Token.kinds_space,
    Token.kinds_mark_space, hreads' rest hrest]
  simp

end Denoted

/-- The members of a list, each scanned to an item, are scanned to a list in commas. -/
theorem reads_commas {α β : Type} {text : α → String} {item : List Kind → β → Prop}
    {R : β → α → Prop} {a : α} {as : List α}
    (h : ∀ x ∈ a :: as, ∃ ks b, Reads (text x).toList ks ∧ item ks b ∧ R b x) :
    ∃ ks bs, Reads (", ".intercalate ((a :: as).map text)).toList ks ∧ Commas item ks bs ∧
      List.Forall₂ R bs (a :: as) := by
  induction as generalizing a with
  | nil =>
    obtain ⟨ks, b, hreads, hitem, hR⟩ := h a List.mem_cons_self
    exact ⟨ks, [b], by simpa using hreads, .one hitem, .cons hR .nil⟩
  | cons a' as ih =>
    obtain ⟨ks, b, hreads, hitem, hR⟩ := h a List.mem_cons_self
    obtain ⟨ks', bs, hreads', hitems, hRs⟩ := ih fun x hx => h x (List.mem_cons_of_mem _ hx)
    refine ⟨_, _, fun rest hrest => ?_, .more hitem hitems, .cons hR hRs⟩
    have hchars : (", ".intercalate ((a :: a' :: as).map text)).toList ++ rest =
        (text a).toList ++ ',' :: ' ' ::
          ((", ".intercalate ((a' :: as).map text)).toList ++ rest) := by
      simp
    rw [hchars, hreads _ (breaks_cons _ (by decide) (by decide)), Token.kinds_comma,
      Token.kinds_space, hreads' rest hrest]
    simp

theorem reads_listed {α β : Type} {text : α → String} {item : List Kind → β → Prop}
    {R : β → α → Prop} {as : List α}
    (h : ∀ x ∈ as, ∃ ks b, Reads (text x).toList ks ∧ item ks b ∧ R b x) :
    ∃ ks bs, Reads (", ".intercalate (as.map text)).toList ks ∧ Listed item ks bs ∧
      List.Forall₂ R bs as := by
  cases as with
  | nil => exact ⟨[], [], fun rest _ => by simp, .none, .nil⟩
  | cons a as =>
    obtain ⟨ks, bs, hreads, hitems, hRs⟩ := reads_commas h
    exact ⟨ks, bs, hreads, .some hitems, hRs⟩

theorem reads_parameter {p : Parameter} (hname : IsName p.name) (hty : p.ty.Simple) :
    ∃ ks q, Reads p.text.toList ks ∧ Declaration ks q ∧ q = p := by
  obtain ⟨name, ty⟩ := p
  obtain ⟨k, hcaption, htype⟩ : ∃ k : Token.Keyword, ty.caption = k.text ∧
      TypeName [.keyword k] ty := by
    rcases hty with h | h <;> cases h
    · exact ⟨.numberType, rfl, .number⟩
    · exact ⟨.booleanType, rfl, .boolean⟩
  refine ⟨_, _, fun rest hrest => ?_, .typed name htype, rfl⟩
  have hchars : (Parameter.text ⟨name, ty⟩).toList ++ rest =
      name.toList ++ ':' :: ' ' :: (k.text.toList ++ rest) := by
    simp [Parameter.text, hcaption]
  rw [hchars, hname.kinds (breaks_cons _ (by decide) (by decide)), Token.kinds_colon,
    Token.kinds_space, Token.kinds_keyword k hrest]
  rfl

theorem displayAll_eq (es : List Expr) : displayAll es = ", ".intercalate (es.map display) := by
  induction es with
  | nil => simp [displayAll]
  | cons e es ih =>
    cases es with
    | nil => simp [displayAll]
    | cons d es => rw [displayAll, ih] <;> simp

theorem sameAll_of_forall₂ {ds es : List Expr}
    (h : List.Forall₂ (fun d e => same d e = true) ds es) : sameAll ds es = true := by
  induction h with
  | nil => rfl
  | cons hd _ ih => simp [sameAll, hd, ih]

namespace Denoted

theorem call {f : String} {args : List Expr} (hf : IsName f)
    (h : ∀ a ∈ args, Denoted 0 (display a) a) :
    Denoted 5 (display (.call f args)) (.call f args) := by
  obtain ⟨ks, ds, hreads, hlisted, hsame⟩ := reads_listed h
  refine ⟨_, _, fun rest hrest => ?_, .plain (.call f hlisted), ?_⟩
  · have hchars : (display (.call f args)).toList ++ rest =
        f.toList ++ '(' :: ((", ".intercalate (args.map display)).toList ++ ')' :: rest) := by
      simp [display, displayAll_eq]
    rw [hchars, hf.kinds (breaks_cons _ (by decide) (by decide)), Token.kinds_opening,
      hreads _ (breaks_cons _ (by decide) (by decide)), Token.kinds_closing]
    simp
  · simp [same, sameAll_of_forall₂ hsame]

theorem function {m : Nat} {ps : List Parameter} {b : Expr}
    (hps : ∀ p ∈ ps, IsName p.name ∧ p.ty.Simple) (h : Denoted 0 (display b) b) :
    Denoted 0 (display (.function m ps b)) (.function m ps b) := by
  obtain ⟨ks, qs, hreads, hlisted, hparams⟩ :=
    reads_listed fun p hp => reads_parameter (hps p hp).1 (hps p hp).2
  obtain ⟨ks', d, hreads', hphrase, hsame⟩ := h
  have hqs : qs = ps := by rwa [List.forall₂_eq_eq_eq] at hparams
  refine ⟨_, _, fun rest hrest => ?_, .function hlisted hphrase, by simp [same, hqs, hsame]⟩
  have hchars : (display (.function m ps b)).toList ++ rest =
      '(' :: ((", ".intercalate (ps.map Parameter.text)).toList ++
        ')' :: ' ' :: '-' :: '>' :: ' ' :: ((display b).toList ++ rest)) := by
    simp [display]
  rw [hchars, Token.kinds_opening, hreads _ (breaks_cons _ (by decide) (by decide)),
    Token.kinds_closing, Token.kinds_space, Token.kinds_arrow, Token.kinds_space,
    hreads' rest hrest]
  simp

theorem number {x : Float} (h : x.isFinite = true) :
    Denoted 5 (display (.number x)) (.number x) := by
  obtain ⟨y, ⟨hreads, hsame⟩ | ⟨hreads, hsame⟩⟩ := Numeral.reads_text h
  · exact ⟨_, _, hreads, .plain (.number y), hsame⟩
  · exact ⟨_, _, hreads, .negativeNumber (.plain (.number y)), hsame⟩

theorem boolean (b : Bool) : Denoted 5 (display (.boolean b)) (.boolean b) := by
  cases b with
  | true => exact ⟨_, _, fun _ => Token.kinds_keyword .trueWord, .plain .true, rfl⟩
  | false => exact ⟨_, _, fun _ => Token.kinds_keyword .falseWord, .plain .false, rfl⟩

theorem symbol {n : String} (h : n = lastResult ∨ IsName n) :
    Denoted 5 (display (.symbol n)) (.symbol n) := by
  rcases h with rfl | h
  · refine ⟨[.mark .hash], _, fun rest _ => ?_, .plain .last, by simp [same]⟩
    exact Token.kinds_hash rest
  · exact ⟨_, _, fun _ => h.kinds, .plain (.name n), by simp [same]⟩

end Denoted

/-- The text of a source expression is scanned to a phrase that denotes it. -/
theorem Printable.denoted {e : Expr} (h : e.Printable) : Denoted e.precedence e.display e := by
  induction h with
  | number h => exact .number h
  | boolean b => exact .boolean b
  | symbol h => exact .symbol h
  | @binary l r op _ _ ihl ihr =>
    have hop : op.precedence ≤ 4 := by cases op <;> decide
    have hleft : Denoted op.precedence
        (Expr.operand (decide (l.precedence < op.precedence)) l.display) l := by
      refine ihl.operand (by omega) fun h => ?_
      exact Nat.le_of_not_lt (of_decide_eq_false h)
    have hright : Denoted (op.precedence + 1)
        (Expr.operand (decide (r.precedence ≤ op.precedence)) r.display) r := by
      refine ihr.operand (by omega) fun h => ?_
      exact Nat.lt_of_not_le (of_decide_eq_false h)
    exact hleft.binary hright
  | call hf _ ih => exact .call hf fun a ha => (ih a ha).loosen (Nat.zero_le _)
  | function m hps _ ih => exact .function hps (ih.loosen (Nat.zero_le _))

/-- Printing a source expression and parsing the text gives a structurally equal expression. -/
theorem parse_display {e : Expr} (h : e.Printable) :
    ∃ d, Command.parse e.display = .ok (.expression d) ∧ same d e = true := by
  obtain ⟨ks, d, hreads, hphrase, hsame⟩ := h.denoted.loosen (Nat.zero_le _)
  refine ⟨d, ?_, hsame⟩
  have hkinds : kinds e.display.toList = ks := by
    simpa [kinds, Token.scanFrom] using hreads [] Token.breaks_nil
  have hsentence : Sentence ((Token.scanFrom 0 0 e.display.toList).map Token.kind)
      (.expression d) := by
    rw [← kinds, hkinds]
    exact .expression hphrase
  have hparse := parseTokens_of_sentence hsentence
  simp [Command.parse, Command.ofTokenLine, TokenLine.ofString, hparse, Except.mapError]

/-- The expression `(1.5 - -2) * f((x: Number) -> x, #)`, whose text needs parentheses. -/
theorem parse_display_operands :
    let e : Expr := .binary .multiply (.binary .subtract (.number 1.5) (.number (-2.0)))
      (.call "f" [.function 0 [⟨"x", .number⟩] (.symbol "x"), .symbol "#"])
    ∃ d, Command.parse e.display = .ok (.expression d) ∧ same d e = true := by
  have hf : IsName "f" := ⟨⟨'f', [], rfl, rfl, rfl⟩, by decide⟩
  have hx : IsName "x" := ⟨⟨'x', [], rfl, rfl, rfl⟩, by decide⟩
  intro e
  apply parse_display
  refine .binary _ (.binary _ (.number rfl) (.number rfl)) (.call hf fun a ha => ?_)
  simp only [List.mem_cons, List.not_mem_nil, or_false] at ha
  rcases ha with rfl | rfl
  · exact .function 0 (by simpa using ⟨hx, .inl rfl⟩) (.symbol (.inr hx))
  · exact .symbol (.inl rfl)

end Expr

end Reckoner
