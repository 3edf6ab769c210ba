import CHeader.Command.Help
import CHeader.Text.Quoted

/-!
# Arguments

Arguments that begin with a hyphen give settings: long names with the value after an equals sign or
in the next argument, short names several in one argument, with the value right after them or in the
next one. Two hyphens end the settings. The program's own settings end at the first other argument,
those of a command may stand anywhere.

The program leaves the reading to a library, of which this is assumed: names are not abbreviated, what
follows a name that needs a value is its value even with a hyphen in front, the values of a setting
keep their order, and the last one counts where only one does. Names that it would suggest for an
unknown one are left out. Nothing is proved of these rules; what is proved of a run takes as given
what its arguments are read as.
-/
namespace CHeader

open Text

/-- What is wrong with the arguments. -/
inductive UsageError where
  | noArguments
  | missingCommand
  | unknownCommand (name : Text)
  | unknownSetting (name : Text)
  | valueMissing (name : Text)
  | valueUnexpected (name : Text)
  | unknownExtractor (name : Text)
  | configIsDirectory (path : Text)
  | includeDirIsFile (path : Text)
  | missingHeader
  | unexpected (arguments : List Text)
  deriving DecidableEq, Repr

/-- A setting that was given, with its value if it takes one. -/
abbrev Given := Setting × Option Text

structure Arguments where
  given : List Given
  others : List Text
  deriving DecidableEq, Repr

namespace Arguments

/-! ## Taking the arguments apart -/

/-- One argument gives these settings; the last may still need a value, under the name in which it
was given. -/
structure Reading where
  given : List Given
  open? : Option (Setting × Text)

/-- A value that is attached to a long name. -/
def attached? (argument : Text) : Text × Option Text :=
  match argument.dropWhile (· ≠ '=') with
  | [] => (argument, none)
  | _ :: value => (argument.takeWhile (· ≠ '='), some value)

def readLetters (settings : List Setting) : Text → Except UsageError Reading
  | [] => .ok ⟨[], none⟩
  | letter :: rest =>
    match settings.find? (·.short? = some letter) with
    | none => .error (.unknownSetting ['-', letter])
    | some setting =>
      if setting.takesValue then
        if rest = [] then .ok ⟨[], some (setting, ['-', letter])⟩
        else .ok ⟨[(setting, some rest)], none⟩
      else
        (readLetters settings rest).map fun reading =>
          { reading with given := (setting, none) :: reading.given }

/-- Read an argument that begins with a hyphen. -/
def readSettings (settings : List Setting) (argument : Text) : Except UsageError Reading :=
  let (name, value) := attached? argument
  match settings.find? (·.long = name), value with
  | some setting, some value =>
    if setting.takesValue then .ok ⟨[(setting, some value)], none⟩
    else .error (.valueUnexpected name)
  | some setting, none =>
    if setting.takesValue then .ok ⟨[], some (setting, name)⟩ else .ok ⟨[(setting, none)], none⟩
  | none, _ =>
    if argument.take 2 = ['-', '-'] then .error (.unknownSetting name)
    else readLetters settings (argument.drop 1)

def givesSettings (argument : Text) : Bool := argument.head? = some '-' && argument.length ≠ 1

def withGiven (given : List Given) (arguments : Arguments) : Arguments :=
  { arguments with given := given ++ arguments.given }

/-- Take arguments apart; with `mixed`, settings may follow other arguments. -/
def parse (settings : List Setting) (mixed : Bool) : List Text → Except UsageError Arguments
  | [] => .ok ⟨[], []⟩
  | argument :: rest =>
    if argument = ['-', '-'] then .ok ⟨[], rest⟩
    else if givesSettings argument then
      match readSettings settings argument with
      | .error cause => .error cause
      | .ok ⟨given, none⟩ => (parse settings mixed rest).map (withGiven given)
      | .ok ⟨given, some (setting, name)⟩ =>
        match rest with
        | [] => .error (.valueMissing name)
        | value :: rest =>
          (parse settings mixed rest).map (withGiven (given ++ [(setting, some value)]))
    else if mixed then
      (parse settings mixed rest).map fun arguments =>
        { arguments with others := argument :: arguments.others }
    else .ok ⟨[], argument :: rest⟩

/-! ## Looking settings up -/

def has (arguments : Arguments) (setting : Setting) : Bool :=
  arguments.given.any (·.1 = setting)

/-- The values of a setting in the order in which they were given. -/
def values (arguments : Arguments) (setting : Setting) : List Text :=
  arguments.given.filterMap fun (known, value) => if known = setting then value else none

/-- The value of a setting that counts: the last one. -/
def value? (arguments : Arguments) (setting : Setting) : Option Text :=
  (arguments.values setting).getLast?

end Arguments

/-! ## Wording -/

namespace UsageError

/-- The complaint about a value, under all names of its setting. -/
def invalidValue (setting : Setting) (complaint : Text) : Text :=
  "Invalid value for ".toList ++ joinWith " / ".toList (setting.names.map fun name =>
    '\'' :: name ++ ['\'']) ++ ": ".toList ++ complaint

def message : UsageError → Text
  | noArguments => []
  | missingCommand => "Missing command.".toList
  | unknownCommand name => "No such command ".toList ++ quote name ++ ['.']
  | unknownSetting name => "No such option ".toList ++ quote name ++ ['.']
  | valueMissing name => "Option ".toList ++ quote name ++ " requires an argument.".toList
  | valueUnexpected name => "Option ".toList ++ quote name ++ " does not take a value.".toList
  | unknownExtractor name =>
    invalidValue .extractor (quote name ++ " is not one of 'regex', 'tree-sitter'.".toList)
  | configIsDirectory path =>
    invalidValue .config ("File ".toList ++ quote path ++ " is a directory.".toList)
  | includeDirIsFile path =>
    invalidValue .includeDir ("Directory ".toList ++ quote path ++ " is a file.".toList)
  | missingHeader => "Missing argument 'HEADER'.".toList
  | unexpected arguments =>
    "Got unexpected extra argument".toList ++ (if arguments.length = 1 then [] else ['s']) ++
      " (".toList ++ joinWith [' '] arguments ++ [')']

/-- The lines that tell of the error. The usage is recalled, unless the error is in the form of the
arguments; without any arguments the help is shown. -/
def report (level : Level) : UsageError → Text
  | noArguments => level.help
  | valueMissing name => "Error: ".toList ++ (valueMissing name).message
  | valueUnexpected name => "Error: ".toList ++ (valueUnexpected name).message
  | cause =>
    level.usage ++ "\nTry '".toList ++ level.path ++ " --help' for help.\n\nError: ".toList ++
      cause.message

end UsageError

end CHeader
