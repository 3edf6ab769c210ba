import CHeader.Console.CellTable
import CHeader.Text.Basic

/-!
# Widths of texts on a screen

The width of a text is the number of screen cells that its characters take together.
-/
namespace CHeader.Console

open Text

def charCells (c : Char) : Nat :=
  if c.toNat < 32 then 0
  else if c.toNat < 127 then 1
  else if inRanges emptyRanges c then 0
  else if inRanges wideRanges c then 2
  else 1

def cells : Text → Nat
  | [] => 0
  | c :: rest => charCells c + cells rest

def spaces (count : Nat) : Text := List.replicate count ' '

/-- The longest beginning that takes no more than the given cells. -/
def takeCells (width : Nat) : Text → Text
  | [] => []
  | c :: rest => if charCells c ≤ width then c :: takeCells (width - charCells c) rest else []

/-- A text padded with spaces at its end to a width. -/
def padRight (width : Nat) (s : Text) : Text := s ++ spaces (width - cells s)

/-- A text cut to a width; a character that does not fit as a whole leaves a space. -/
def crop (width : Nat) (s : Text) : Text :=
  if cells s ≤ width then s else padRight width (takeCells width s)

end CHeader.Console
