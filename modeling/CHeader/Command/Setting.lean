import CHeader.Text.Basic

/-!
# Commands and their settings

The program has settings of its own and four commands, each with settings. A setting is given by its
long name or, if it has one, by its short name; some take a value.
-/
namespace CHeader

open Text

inductive Setting where
  | config
  | extractor
  | verbose
  | includeDir
  | all
  | json
  | help
  deriving DecidableEq, Repr

inductive Command where
  | analyze
  | deps
  | graph
  | order
  deriving DecidableEq, Repr

namespace Setting

def long : Setting → Text
  | config => "--config".toList
  | extractor => "--extractor".toList
  | verbose => "--verbose".toList
  | includeDir => "--include-dir".toList
  | all => "--all".toList
  | json => "--json".toList
  | help => "--help".toList

def short? : Setting → Option Char
  | verbose => some 'v'
  | includeDir => some 'I'
  | _ => none

/-- What the value of a setting is called, if it takes one. -/
def valueName? : Setting → Option Text
  | config => some "FILE".toList
  | extractor => some "[regex|tree-sitter]".toList
  | includeDir => some "DIRECTORY".toList
  | _ => none

def takesValue (setting : Setting) : Bool := setting.valueName?.isSome

def summary : Setting → Text
  | config =>
    "Path to hdrkit_config.json (default: search upwards from the current directory)".toList
  | extractor => "Declaration extractor to use".toList
  | verbose => "Enable debug logging".toList
  | includeDir => "Additional directory to search for includes (repeatable)".toList
  | all => "Include discovered headers as nodes".toList
  | json => "Print JSON instead of tables".toList
  | help => "Show this message and exit.".toList

/-- The names of a setting, the short one first. -/
def names (setting : Setting) : List Text :=
  (setting.short?.map fun letter => ['-', letter]).toList ++ [setting.long]

end Setting

namespace Command

def all : List Command := [analyze, deps, graph, order]

def name : Command → Text
  | analyze => "analyze".toList
  | deps => "deps".toList
  | graph => "graph".toList
  | order => "order".toList

def ofName? (name : Text) : Option Command := all.find? fun command => command.name = name

def summary : Command → Text
  | analyze => "Show functions, structures, constants and includes of HEADER.".toList
  | deps => "List every header HEADER depends on, directly or transitively.".toList
  | graph => "Print the dependency graph of HEADERS.".toList
  | order => "Print HEADERS and their dependencies in compilation order.".toList

def settings : Command → List Setting
  | analyze => [.json, .help]
  | deps => [.includeDir, .json, .help]
  | graph => [.includeDir, .all, .json, .help]
  | order => [.includeDir, .json, .help]

/-- Does the command take any number of headers, and not just one? -/
def takesMany : Command → Bool
  | analyze | deps => false
  | graph | order => true

end Command

/-- Where settings are given: before the command, or after it. -/
inductive Level where
  | program
  | command (command : Command)
  deriving DecidableEq, Repr

namespace Level

def settings : Level → List Setting
  | program => [.config, .extractor, .verbose, .help]
  | command c => c.settings

def summary : Level → Text
  | program =>
    "Extract declarations from C headers and order them by include dependencies.".toList
  | command c => c.summary

/-- The words that a user has typed up to this level. -/
def path : Level → Text
  | program => "cli".toList
  | command c => "cli ".toList ++ c.name

/-- What may follow those words. -/
def arguments : Level → Text
  | program => "[OPTIONS] COMMAND [ARGS]...".toList
  | command c =>
    if c.takesMany then "[OPTIONS] [HEADERS]...".toList else "[OPTIONS] HEADER".toList

def usage (level : Level) : Text := "Usage: ".toList ++ level.path ++ ' ' :: level.arguments

end Level

end CHeader
