import CHeader.Console.Grid

/-!
# Renderers

Whatever puts markup on a screen is outside of the program. It escapes texts, prints markup and draws
tables, and it may fail at any of that in ways of its own. The program is written for any such
renderer. The one that it runs with here reads markup and draws tables itself.
-/
namespace CHeader.Console

open Text

/-- Where the lines of a printed text are broken. -/
inductive Layout where
  | wrapped (screen : Nat)
  /-- Lines are as long as they are. -/
  | unwrapped
  deriving DecidableEq, Repr

/-- What shows markup, or fails with a cause of its own. -/
structure Renderer (ε : Type) where
  /-- The markup for a text as it is. -/
  escape : Text → Text
  /-- Print markup texts with a space between them. -/
  print : Layout → List Text → Except ε Text
  /-- Draw a table whose texts are markup on a screen of the given width. -/
  table : Nat → Grid → Except ε Text

def bold (markup : Text) : Text := "[bold]".toList ++ markup ++ "[/bold]".toList

/-! ## The renderer at hand -/

def unlines (lines : List Text) : Text := lines.flatMap (· ++ ['\n'])

def Layout.lines : Layout → Text → List Text
  | wrapped screen, text => wrap .fold .ragged screen text
  | unwrapped, text => (splitOn '\n' text).map (expandTabs 0)

/-- A table with the texts that its markup shows. -/
def Grid.rendered (grid : Grid) : Except MarkupError Grid := do
  let title ← Markup.render grid.title
  let headings ← grid.headings.mapM Markup.render
  let rows ← grid.rows.mapM (·.mapM Markup.render)
  return ⟨title, headings, rows⟩

/-- Markup as `Markup.render` reads it. Others look closer at some tags, such as the arguments of a
handler or the numbers of a color, and fail at those that they cannot read. -/
def Renderer.standard : Renderer MarkupError where
  escape := Markup.escape
  print layout markups := do
    let texts ← markups.mapM Markup.render
    return unlines (layout.lines (joinWith [' '] texts))
  table screen grid := do
    let grid ← grid.rendered
    return unlines (grid.draw screen)

end CHeader.Console
