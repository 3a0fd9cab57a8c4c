import Reckoner.Token.Basic

/-! # Cutting a line into tokens

At each place the longest token is taken.  Spaces, tabs and line ends separate tokens.  A character
that starts no token becomes a token of its own, so that every line can be scanned.
-/
namespace Reckoner.Token

def isSpace (c : Char) : Bool :=
  c == ' ' || c == '\t' || c == '\r' || c == '\n'

/-- A character that can start a word: an ASCII letter or an underscore. -/
def isWordStart (c : Char) : Bool :=
  c.isAlpha || c == '_'

/-- A character that can continue a word: an ASCII letter or digit, or an underscore. -/
def isWordPart (c : Char) : Bool :=
  c.isAlphanum || c == '_'

def digitsOf (cs : List Char) : List Char :=
  cs.takeWhile Char.isDigit

/-- The fraction at the front of a text: a point and at least one digit, or nothing. -/
def fractionOf : List Char → List Char
  | '.' :: cs => if (digitsOf cs).isEmpty then [] else '.' :: digitsOf cs
  | _ => []

def signOf : List Char → List Char
  | '+' :: _ => ['+']
  | '-' :: _ => ['-']
  | _ => []

/-- The exponent at the front of a text: a small or capital `e`, perhaps a sign, and at least one
digit, or nothing. -/
def exponentOf : List Char → List Char
  | c :: cs =>
    let sign := signOf cs
    let digits := digitsOf (cs.drop sign.length)
    if (c == 'e' || c == 'E') && !digits.isEmpty then c :: sign ++ digits else []
  | [] => []

/-- A number's text in its three parts. -/
structure NumberText where
  whole : List Char
  fraction : List Char
  exponent : List Char

namespace NumberText

/-- The longest number at the front of a text that starts with a digit. -/
def read (cs : List Char) : NumberText :=
  let whole := digitsOf cs
  let fraction := fractionOf (cs.drop whole.length)
  let exponent := exponentOf (cs.drop (whole.length + fraction.length))
  ⟨whole, fraction, exponent⟩

def text (n : NumberText) : List Char :=
  n.whole ++ n.fraction ++ n.exponent

/-- The power of ten that an exponent's text stands for. -/
def exponentValue : List Char → Int
  | _ :: '-' :: ds => -(Decimal.readDigits 0 ds)
  | _ :: '+' :: ds => Decimal.readDigits 0 ds
  | _ :: ds => Decimal.readDigits 0 ds
  | [] => 0

def value (n : NumberText) : Float :=
  (Decimal.ofDigits n.whole (n.fraction.drop 1) (exponentValue n.exponent)).toFloat

end NumberText

/-- The punctuation mark at the front of a text; of two that start alike, the longer one. -/
def markOf? : List Char → Option Mark
  | '-' :: '>' :: _ => some .arrow
  | '=' :: '=' :: _ => some .equal
  | '!' :: '=' :: _ => some .notEqual
  | '<' :: '=' :: _ => some .lessOrEqual
  | '>' :: '=' :: _ => some .greaterOrEqual
  | '#' :: _ => some .hash
  | '(' :: _ => some .opening
  | ')' :: _ => some .closing
  | ',' :: _ => some .comma
  | ':' :: _ => some .colon
  | '=' :: _ => some .assign
  | '<' :: _ => some .less
  | '>' :: _ => some .greater
  | '+' :: _ => some .plus
  | '-' :: _ => some .minus
  | '*' :: _ => some .star
  | '/' :: _ => some .slash
  | _ => none

/-- What a word is: a reserved word if it is spelled like one, an identifier otherwise. -/
def wordKind (word : String) : Kind :=
  match Keyword.ofText? word with
  | some k => .keyword k
  | none => .identifier word

def lexeme? (cs : List Char) : Option (Kind × List Char) :=
  match cs with
  | [] => none
  | c :: _ =>
    if c.isDigit then
      let n := NumberText.read cs
      some (.number n.value, n.text)
    else if isWordStart c then
      let word := cs.takeWhile isWordPart
      some (wordKind (String.ofList word), word)
    else (markOf? cs).map fun m => (.mark m, m.text.toList)

def byteLength (cs : List Char) : Nat :=
  cs.foldr (fun c n => c.utf8Size + n) 0

/-- The tokens of a text that starts at a byte offset, where the first `pending` characters belong
to the token before. -/
def scanFrom (offset pending : Nat) : List Char → List Token
  | [] => []
  | c :: cs =>
    let next := offset + c.utf8Size
    match pending with
    | pending + 1 => scanFrom next pending cs
    | 0 =>
      if isSpace c then scanFrom next 0 cs
      else
        match lexeme? (c :: cs) with
        | some (kind, text) =>
          ⟨kind, Span.ofRange offset (offset + byteLength text)⟩ ::
            scanFrom next (text.length - 1) cs
        | none => ⟨.invalid, Span.ofRange offset next⟩ :: scanFrom next 0 cs

end Reckoner.Token

namespace Reckoner

def TokenLine.ofString (line : String) : TokenLine :=
  ⟨Token.scanFrom 0 0 line.toList, Span.ofRange line.utf8ByteSize line.utf8ByteSize⟩

end Reckoner
