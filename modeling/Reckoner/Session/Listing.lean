import Reckoner.Diagnostic.Basic

/-! # Listings

A listing is a heading and rows of two cells in a frame of characters.  A column is as wide as its
widest cell, counted in characters.
-/
namespace Reckoner.Listing

def width (cells : List String) : Nat :=
  (cells.map String.length).foldl max 0

def pad (width : Nat) (cell : String) : String :=
  cell ++ Diagnostic.row ' ' (width - cell.length)

def line (left right : Nat) (cells : String × String) : String :=
  "| " ++ pad left cells.1 ++ " | " ++ pad right cells.2 ++ " |"

def lines (heading : String × String) (rows : List (String × String)) : List String :=
  let left := width ((heading :: rows).map (·.1))
  let right := width ((heading :: rows).map (·.2))
  let rule := Diagnostic.row '-' (left + right + 5)
  ["." ++ rule ++ ".", line left right heading,
    "|" ++ Diagnostic.row '-' (left + 2) ++ "|" ++ Diagnostic.row '-' (right + 2) ++ "|"] ++
  rows.map (line left right) ++ ["'" ++ rule ++ "'"]

def text (heading : String × String) (rows : List (String × String)) : String :=
  "\n".intercalate (lines heading rows)

end Reckoner.Listing
