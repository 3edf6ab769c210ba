import CHeader.Console.Markup
import CHeader.Console.Wrap
import CHeader.Number.Binary64

/-!
# Tables on a screen

A table has a title, a row of headings and rows of cells, and is drawn with a box around its columns.
A column is as wide as its widest cell. Where the screen is too narrow, the widest columns give way
first, down to the width of the next widest, and the cells are wrapped.
-/
namespace CHeader.Console

open Text

structure Grid where
  title : Text
  headings : List Text
  rows : List (List Text)
  deriving DecidableEq, Repr

namespace Grid

/-! ## Widths of the columns -/

/-- The space on either side of a cell. -/
def padding : Nat := 2

/-- The width of a cell whose lines need not be wrapped. -/
def cellWidth (limit : Nat) (cell : Text) : Nat :=
  min limit ((((lines cell).map cells).max?.getD 0) + padding)

def columnWidth (limit : Nat) (column : List Text) : Nat :=
  match (column.map (cellWidth limit)).max?.getD 0 with
  | 0 => 1
  | width => width

def totalWidth (widths : List Nat) : Nat := widths.foldr (· + ·) 0

/-- Take a total away from the chosen widths in equal parts, from none more than a bound. -/
def reduce (total : Nat) (bound : Nat → Nat) (chosen : Nat → Bool) (widths : List Nat) : List Nat :=
  let rec go (remaining shares : Nat) : List Nat → List Nat
    | [] => []
    | width :: rest =>
      if chosen width && 0 < bound width && 0 < shares then
        let part := min (bound width) (Binary64.roundHalfEven remaining shares)
        (width - part) :: go (remaining - part) (shares - 1) rest
      else width :: go remaining shares rest
  go total (widths.countP fun width => chosen width && 0 < bound width) widths

/-- Reduce the widest columns to the next widest until all of them fit. -/
def shrinkWidest (limit : Nat) : (fuel : Nat) → List Nat → List Nat
  | 0, widths => widths
  | fuel + 1, widths =>
    let excess := totalWidth widths - limit
    let widest := widths.max?.getD 0
    let next := (widths.filter (· ≠ widest)).max?.getD 0
    if excess = 0 ∨ widest = next then widths
    else shrinkWidest limit fuel
      (reduce excess (fun _ => min excess (widest - next)) (· = widest) widths)

/-- The widths of the columns, together within the limit. Each round of shrinking takes away at
least one cell, so there are no more rounds than cells. -/
def columnWidths (limit : Nat) (columns : List (List Text)) : List Nat :=
  let natural := columns.map (columnWidth limit)
  if totalWidth natural ≤ limit then natural
  else
    let shrunk := shrinkWidest limit (totalWidth natural) natural
    reduce (totalWidth shrunk - limit) id (fun _ => true) shrunk

/-! ## Drawing -/

/-- The signs of one line of the box: at its left, between columns, at its right. -/
structure Edge where
  left : Char
  divider : Char
  right : Char

namespace Edge

def joined (edge : Edge) (parts : List Text) : Text :=
  edge.left :: joinWith [edge.divider] parts ++ [edge.right]

/-- A horizontal line. -/
def rule (edge : Edge) (line : Char) (widths : List Nat) : Text :=
  edge.joined (widths.map (List.replicate · line))

end Edge

/-- The lines of a cell, with a space on either side; a column without room for text stays empty. -/
def cellLines (width : Nat) (cell : Text) : List Text :=
  if width ≤ padding then []
  else (wrap .ellipsis .left (width - padding) cell).map fun line => ' ' :: line ++ [' ']

/-- The lines of a row: as many as its tallest cell has, and one at least. -/
def rowLines (edge : Edge) (widths : List Nat) (row : List Text) : List Text :=
  let drawn := (widths.zip row).map fun (width, cell) => (width, cellLines width cell)
  let height := max 1 ((drawn.map (·.2.length)).max?.getD 0)
  (List.range height).map fun i =>
    edge.joined (drawn.map fun (width, lines) => (lines[i]?).getD (spaces width))

def draw (screen : Nat) (grid : Grid) : List Text :=
  let borders := grid.headings.length + 1
  let columns := (List.range grid.headings.length).map fun i =>
    (grid.headings :: grid.rows).map fun row => (row[i]?).getD []
  let widths := columnWidths (screen - borders) columns
  (wrap .fold .center (totalWidth widths + borders) grid.title ++
    [Edge.rule ⟨'┏', '┳', '┓'⟩ '━' widths] ++
    rowLines ⟨'┃', '┃', '┃'⟩ widths grid.headings ++
    [Edge.rule ⟨'┡', '╇', '┩'⟩ '━' widths] ++
    grid.rows.flatMap (rowLines ⟨'│', '│', '│'⟩ widths) ++
    [Edge.rule ⟨'└', '┴', '┘'⟩ '─' widths]).map (crop screen)

end Grid

end CHeader.Console
