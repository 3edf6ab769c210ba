import CHeader.Command.Setting

/-!
# Help

The help of a level tells how it is used and lists its settings, and for the program also the
commands. The descriptions stand in a column of their own; a line takes no more than 78 characters.
How the lines are laid out is up to the library that prints them and assumed here; nothing is proved
of it.
-/
namespace CHeader

open Text

namespace Help

def lineWidth : Nat := 78

/-- Terms wider than this have their description on the next line. -/
def termWidth : Nat := 30

/-- Join words to lines of at most the given width, the first of them after an open line. -/
def fill (width : Nat) (line : Text) : List Text → List Text
  | [] => [line]
  | word :: rest =>
    if line.length + 1 + word.length ≤ width then fill width (line ++ ' ' :: word) rest
    else line :: fill width word rest

def fillText (width : Nat) (text : Text) : List Text :=
  match words text with
  | [] => []
  | word :: rest => fill width word rest

def indented (depth : Nat) (line : Text) : Text := List.replicate depth ' ' ++ line

/-- A term and the lines of its description, which begin at a column. -/
def entry (column : Nat) (term : Text) (description : List Text) : List Text :=
  match description with
  | [] => [indented 2 term]
  | first :: rest =>
    (if term.length + 2 ≤ column then
      [indented 2 (term ++ indented (column - term.length) first)]
    else [indented 2 term, indented (column + 2) first]) ++
    rest.map (indented (column + 2))

def entries (items : List (Text × Text)) : List Text :=
  let widest := (items.map fun (term, _) => term.length).max?.getD 0
  let column := min widest termWidth + 2
  items.flatMap fun (term, description) =>
    entry column term (fillText (lineWidth - column - 2) description)

end Help

def Setting.label (setting : Setting) : Text :=
  joinWith [',', ' '] setting.names ++
    (setting.valueName?.elim [] fun value => ' ' :: value)

namespace Level

def helpLines (level : Level) : List Text :=
  [level.usage, [], Help.indented 2 level.summary, [], "Options:".toList] ++
  Help.entries (level.settings.map fun setting => (setting.label, setting.summary)) ++
  match level with
  | program =>
    [[], "Commands:".toList] ++
      Help.entries (Command.all.map fun command => (command.name, command.summary))
  | command _ => []

def help (level : Level) : Text := joinWith ['\n'] level.helpLines

end Level

end CHeader
