/-! # White space and line ends

White space is the Unicode property `White_Space`: twenty-five characters, all of them listed here.
A line is blank when it has no other character.
-/
namespace Reckoner.Text

/-- The characters with the Unicode property `White_Space`. -/
def isBlank (c : Char) : Bool :=
  let n := c.toNat
  (0x09 ≤ n && n ≤ 0x0D) || n == 0x20 || n == 0x85 || n == 0xA0 || n == 0x1680 ||
    (0x2000 ≤ n && n ≤ 0x200A) || n == 0x2028 || n == 0x2029 || n == 0x202F || n == 0x205F ||
    n == 0x3000

/-- Every character that core calls white space is white space here. -/
theorem isBlank_of_isWhitespace {c : Char} (h : c.isWhitespace) : isBlank c := by
  simp only [Char.isWhitespace, Bool.or_eq_true, decide_eq_true_eq] at h
  rcases h with ((rfl | rfl) | rfl) | rfl <;> decide

/-- A text is blank when it holds white space only. -/
def blank (s : String) : Bool :=
  s.toList.all isBlank

/-- A text without the characters at its end that satisfy `drop`. -/
def trimEnd (drop : Char → Bool) (s : String) : String :=
  String.ofList (s.toList.reverse.dropWhile drop).reverse

/-- The characters that end a line read from a console. -/
def isLineEnd (c : Char) : Bool :=
  c == '\n' || c == '\r'

/-- One line out of a text that ended in a line feed: a carriage return before it goes too. -/
def dropReturn (line : List Char) : List Char :=
  match line.reverse with
  | '\r' :: rest => rest.reverse
  | _ => line

/-- The lines of a text, where `line` holds the characters read since the last line feed, latest
first.  A last line that no line feed ends counts if it holds a character. -/
def linesFrom (line : List Char) : List Char → List String
  | [] => if line.isEmpty then [] else [String.ofList line.reverse]
  | c :: rest =>
    if c == '\n' then String.ofList (dropReturn line.reverse) :: linesFrom [] rest
    else linesFrom (c :: line) rest

/-- The lines of a text, without their line feeds and the carriage returns before those. -/
def lines (s : String) : List String :=
  linesFrom [] s.toList

end Reckoner.Text
