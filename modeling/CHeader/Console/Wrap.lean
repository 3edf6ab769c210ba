import CHeader.Console.Cells

/-!
# Lines that fit a width

A line is broken before a word that does not fit. A word that fits no line is folded over several, or
stays whole and is cut short. Blank space after a word stays on its line as far as it fits.
-/
namespace CHeader.Console

open Text

/-- What becomes of a word that is wider than a line. -/
inductive Overflow where
  | fold
  | ellipsis
  deriving DecidableEq, Repr

inductive Alignment where
  /-- As it is, without padding. -/
  | ragged
  | left
  | center
  deriving DecidableEq, Repr

/-! ## Tabs and words -/

/-- Tabs as spaces up to the next multiple of eight columns. -/
def expandTabs (column : Nat) : Text → Text
  | [] => []
  | c :: rest =>
    if c = '\t' then
      spaces (8 - column % 8) ++ expandTabs (column + (8 - column % 8)) rest
    else c :: expandTabs (column + charCells c) rest

/-- The pieces of a line, cut where a word follows blank space. -/
def cutBeforeWords : Text → List Text
  | [] => []
  | c :: rest =>
    match cutBeforeWords rest with
    | [] => [[c]]
    | piece :: pieces =>
      if isSpace c && !piece.head?.any isSpace then [c] :: piece :: pieces
      else (c :: piece) :: pieces

/-- The words of a line, each with the blank space after it, the first also with that before it. A
blank line has none. -/
def spacedWords (line : Text) : List Text :=
  match cutBeforeWords line with
  | [] => []
  | [piece] => if piece.all isSpace then [] else [piece]
  | first :: second :: rest =>
    if first.all isSpace then (first ++ second) :: rest else first :: second :: rest

/-! ## Breaking a line -/

/-- A line cut into pieces that fit a width, the first of them on a line on which some cells are
taken. -/
def chop (width taken : Nat) : Text → List Text
  | [] => [[]]
  | c :: rest =>
    if taken + charCells c ≤ width then
      match chop width (taken + charCells c) rest with
      | piece :: pieces => (c :: piece) :: pieces
      | [] => [[c]]
    else
      match chop width (charCells c) rest with
      | piece :: pieces => [] :: (c :: piece) :: pieces
      | [] => [[], [c]]

/-- The lines made so far, the last of them still open. -/
structure Broken where
  finished : List Text
  line : Text
  /-- The cells that the open line takes. -/
  taken : Nat

namespace Broken

def empty : Broken := ⟨[], [], 0⟩

/-- Go on with a new line, unless nothing has been placed yet. -/
def startLine (broken : Broken) (piece : Text) : Broken :=
  if broken.finished = [] ∧ broken.line = [] then ⟨[], piece, cells piece⟩
  else ⟨broken.finished ++ [broken.line], piece, cells piece⟩

/-- Place the next word, without counting the blank space after it. -/
def place (overflow : Overflow) (width : Nat) (broken : Broken) (word : Text) : Broken :=
  if broken.taken + cells (trimEnd word) ≤ width then
    { broken with line := broken.line ++ word, taken := broken.taken + cells word }
  else if overflow = .fold ∧ width < cells (trimEnd word) then
    (chop width 0 word).foldl startLine broken
  else broken.startLine word

def lines (broken : Broken) : List Text := broken.finished ++ [broken.line]

end Broken

def breakLine (overflow : Overflow) (width : Nat) (line : Text) : List Text :=
  match spacedWords line with
  | [] => [line]
  | parts => (parts.foldl (Broken.place overflow width) .empty).lines

/-! ## Laying a line out -/

/-- Drop blank space at the end, as far as the line is longer than the width. -/
def dropExcessBlanks (width : Nat) (line : Text) : Text :=
  line.take (line.length - min (line.length - (trimEnd line).length) (line.length - width))

def cutShort (overflow : Overflow) (width : Nat) (line : Text) : Text :=
  match overflow with
  | .fold => crop width line
  | .ellipsis => if cells line ≤ width then line else crop (width - 1) line ++ ['…']

def align (overflow : Overflow) (alignment : Alignment) (width : Nat) (line : Text) : Text :=
  match alignment with
  | .ragged => cutShort overflow width line
  | .left => padRight width (cutShort overflow width line)
  | .center =>
    let line := cutShort overflow width (trimEnd line)
    padRight width (spaces ((width - cells line) / 2) ++ line)

/-- The lines of a text on a screen of the given width. -/
def wrap (overflow : Overflow) (alignment : Alignment) (width : Nat) (text : Text) : List Text :=
  (splitOn '\n' text).flatMap fun line =>
    (breakLine overflow width (expandTabs 0 line)).map fun line =>
      align overflow alignment width (dropExcessBlanks width line)

end CHeader.Console
