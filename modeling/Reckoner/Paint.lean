/-! # Coloured text

Output is a list of pieces, some of them with a style.  Colours are added when the pieces are
rendered, so the same pieces give the plain text and the coloured one.
-/
namespace Reckoner

inductive Style where
  | error
  | warning
  | note
  | help
  | strong
  | gutter
  | value
  | prompt
deriving DecidableEq, Repr

def Style.on : Style → String
  | error => "\x1b[1;31m"
  | warning => "\x1b[1;33m"
  | note => "\x1b[1;36m"
  | help => "\x1b[1;32m"
  | strong => "\x1b[1m"
  | gutter => "\x1b[1;34m"
  | value => "\x1b[33m"
  | prompt => "\x1b[1;36m"

def Style.off : String := "\x1b[0m"

structure Piece where
  style : Option Style
  text : String
deriving DecidableEq, Repr

namespace Piece

def plain (text : String) : Piece :=
  ⟨none, text⟩

def styled (style : Style) (text : String) : Piece :=
  ⟨some style, text⟩

def render (colors : Bool) (p : Piece) : String :=
  match colors, p.style with
  | true, some s => s.on ++ p.text ++ Style.off
  | _, _ => p.text

end Piece

abbrev Painted := List Piece

def Painted.render (colors : Bool) (ps : Painted) : String :=
  String.join (ps.map (Piece.render colors))

inductive ColorMode where
  | auto
  | always
  | never
deriving DecidableEq, Repr

/-- Whether a mode uses colours; whether the output is a terminal matters for `auto` only. -/
def ColorMode.enabled (terminal : Bool) : ColorMode → Bool
  | auto => terminal
  | always => true
  | never => false

end Reckoner
