import CHeader.Extractor
import CHeader.Json.Parse
import CHeader.Resolver.Basic

/-!
# Project configuration

A configuration names the headers of a project, where includes are looked for, and how declarations
are extracted. It is kept in a file of the project's root directory; the root itself is not written
down but is the directory in which the file lies.
-/
namespace CHeader

open Text

structure Config where
  projectRoot : Text
  headerFiles : List Text
  searchPaths : List Text
  systemPaths : List Text
  extractor : Extractor
  deriving DecidableEq, Repr, Inhabited

/-- What is wrong with a member of a configuration. -/
inductive Problem where
  | notAString (field : Text) (index : Nat)
  | notAList (field : Text)
  | unknownExtractor
  deriving DecidableEq, Repr

/-- Why a file is no configuration. -/
inductive ConfigFault where
  | missing
  | malformed (fault : JsonFault) (source : Text) (position : Nat)
  | notAnObject (value : JsonValue)
  | invalid (problems : List Problem)

/-- Why no configuration can be loaded: the file at a path is none, or it cannot be read so far. -/
inductive ConfigError where
  | config (fault : ConfigFault) (path : Text)
  | undecodable (cause : Utf8Error)
  | numeral (cause : NumeralError)
  | path (cause : PathError)
  | denied (path : Text)

/-- Why a configuration cannot be written under a path. -/
inductive SaveError where
  | path (cause : PathError)
  | unwritable (fault : FileTree.WriteFault) (path : Text)
  deriving DecidableEq, Repr

namespace Config

def fileName : Text := "hdrkit_config.json".toList

def defaultSystemPaths : List Text := [
  "/usr/include".toList, "/usr/local/include".toList, "/opt/homebrew/include".toList]

def headerFilesKey : Text := "header_files".toList

def searchPathsKey : Text := "search_paths".toList

def systemPathsKey : Text := "system_include_paths".toList

def extractorKey : Text := "extractor".toList

/-! ## Validation -/

/-- The strings of a list, or what is wrong with it. -/
def stringList (field : Text) : JsonValue → Except (List Problem) (List Text)
  | .array items =>
    let read : List (Except Problem Text) := items.zipIdx.map fun (item, index) =>
      match item with
      | .string value => .ok value
      | _ => .error (.notAString field index)
    let problems := read.filterMap fun
      | .error problem => some problem
      | .ok _ => none
    if problems.isEmpty then .ok (read.filterMap Except.toOption) else .error problems
  | _ => .error [.notAList field]

def listMember (members : List (Text × JsonValue)) (field : Text) (absent : List Text) :
    Except (List Problem) (List Text) :=
  match JsonValue.member? members field with
  | none => .ok absent
  | some value => stringList field value

def extractorMember (members : List (Text × JsonValue)) : Except (List Problem) Extractor :=
  match JsonValue.member? members extractorKey with
  | none => .ok .pattern
  | some (.string name) =>
    match Extractor.ofName? name with
    | some extractor => .ok extractor
    | none => .error [.unknownExtractor]
  | some _ => .error [.unknownExtractor]

def problemsOf {α : Type} : Except (List Problem) α → List Problem
  | .error problems => problems
  | .ok _ => []

/-- A configuration from the members of an object. The fields are checked by a library, of which this
is assumed: a field that is absent takes its default, unknown members do not matter, only a list is
taken for a list and only a string for a string, and all problems are reported, in the order of the
fields. -/
def ofMembers (projectRoot : Text) (members : List (Text × JsonValue)) :
    Except (List Problem) Config :=
  let headers := listMember members headerFilesKey []
  let search := listMember members searchPathsKey []
  let system := listMember members systemPathsKey defaultSystemPaths
  let extractor := extractorMember members
  match headers, search, system, extractor with
  | .ok headers, .ok search, .ok system, .ok extractor =>
    .ok ⟨projectRoot, headers, search, system, extractor⟩
  | _, _, _, _ =>
    .error (problemsOf headers ++ problemsOf search ++ problemsOf system ++ problemsOf extractor)

/-! ## Files -/

section

variable {ε : Type}

/-- A configuration from the text of a file in a project's root directory. -/
def parse (host : Host ε) (projectRoot source : Text) :
    Except ε (Except (ConfigFault ⊕ NumeralError) Config) :=
  (JsonValue.parse host source).map fun
    | .error (.malformed fault position) => .error (.inl (.malformed fault source position))
    | .error (.numeral cause) => .error (.inr cause)
    | .ok (.object members) =>
      match ofMembers projectRoot members with
      | .ok config => .ok config
      | .error problems => .error (.inl (.invalid problems))
    | .ok other => .error (.inl (.notAnObject other))

/-- The configuration in the file that a path leads to. -/
def loadOn (host : Host ε) (tree : FileTree) (path : Text) :
    Except ε (Except ConfigError Config) :=
  let path := Path.tidy path
  match host.lookUp path with
  | some cause => .error cause
  | none =>
    match tree.find? path with
    | some (location, .file contents) =>
      if tree.readable location = false then .ok (.error (.denied path))
      else
        match decode? contents with
        | .error cause => .ok (.error (.undecodable cause))
        | .ok text =>
          match tree.canonical (Path.ofText path).parent.toText with
          | .error cause => .ok (.error (.path cause))
          | .ok root =>
            (parse host root (universalNewlines text)).map fun
              | .ok config => .ok config
              | .error (.inl fault) => .error (.config fault path)
              | .error (.inr cause) => .error (.numeral cause)
    | _ => .ok (.error (.config .missing path))

def load (tree : FileTree) (path : Text) : Except ConfigError Config :=
  Host.settle (loadOn .ample tree path)

/-- A directory and all directories above it, nearest first. -/
def ancestors (directory : Path) : List Path :=
  (List.range (directory.names.length + 1)).map fun up =>
    ⟨directory.root, directory.names.take (directory.names.length - up)⟩

/-- Where a configuration may lie for a directory, nearest first. -/
def candidates (directory : Text) : List Text :=
  (ancestors (Path.ofText directory)).map fun place => (place.join ⟨[], [fileName]⟩).toText

/-- The first of some paths that leads to a file. -/
def firstFile (host : Host ε) (tree : FileTree) : List Text → Except ε (Option Text)
  | [] => .ok none
  | path :: rest =>
    match host.lookUp path with
    | some cause => .error cause
    | none => if tree.isFile path then .ok (some path) else firstFile host tree rest

/-- The nearest configuration at or above a directory. -/
def findOn (host : Host ε) (tree : FileTree) (start : Text) :
    Except ε (Except ConfigError (Option Config)) :=
  match tree.canonical (Path.tidy start) with
  | .error cause => .ok (.error (.path cause))
  | .ok directory =>
    match firstFile host tree (candidates directory) with
    | .error cause => .error cause
    | .ok none => .ok (.ok none)
    | .ok (some path) => (loadOn host tree path).map fun loaded => loaded.map some

def find (tree : FileTree) (start : Text) : Except ConfigError (Option Config) :=
  Host.settle (findOn .ample tree start)

end

/-- What is written for a configuration. -/
def render (config : Config) : Text :=
  JsonValue.render .ascii 0 (.object [
    (headerFilesKey, .strings config.headerFiles),
    (searchPathsKey, .strings config.searchPaths),
    (systemPathsKey, .strings config.systemPaths),
    (extractorKey, .string config.extractor.name)]) ++ ['\n']

/-- Write a configuration to the file that a path leads to, or to a new one. -/
def save (config : Config) (tree : FileTree) (path : Text) : Except SaveError FileTree :=
  let path := Path.tidy path
  if '\x00' ∈ path then .error (.path .nullCharacter)
  else
    match tree.destination path with
    | .error fault => .error (.unwritable fault path)
    | .ok location => .ok (tree.put location (.file (encode config.render)))

/-! ## Use -/

/-- The configuration of a project that has none. -/
def default (projectRoot : Text) : Config :=
  ⟨projectRoot, [], [], defaultSystemPaths, .pattern⟩

def inProject (config : Config) (path : Text) : Text := Path.joinText config.projectRoot path

def headerPaths (config : Config) : List Text := config.headerFiles.map config.inProject

def searchDirectories (config : Config) : List Text := config.searchPaths.map config.inProject

def resolver (config : Config) : Resolver := ⟨config.systemPaths⟩

end Config

/-! ## Wording -/

namespace Problem

/-- The place of the problem, its kind, and what was expected. -/
def describe : Problem → Text × Text × Text
  | .notAString field index =>
    (field ++ '.' :: Decimal.digitsOf index, "string_type".toList,
      "Input should be a valid string".toList)
  | .notAList field => (field, "list_type".toList, "Input should be a valid list".toList)
  | .unknownExtractor =>
    (Config.extractorKey, "literal_error".toList,
      "Input should be 'regex' or 'tree-sitter'".toList)

end Problem

namespace ConfigFault

/-- Why a value that is no object cannot take the project's root as a member. -/
def rejection : JsonValue → Text
  | .array _ => "list indices must be integers or slices, not str".toList
  | .null => "'NoneType' object does not support item assignment".toList
  | .bool _ => "'bool' object does not support item assignment".toList
  | .integer _ => "'int' object does not support item assignment".toList
  | .float _ => "'float' object does not support item assignment".toList
  | .notANumber => "'float' object does not support item assignment".toList
  | .string _ => "'str' object does not support item assignment".toList
  | .object _ => []

/-- The number of validation problems, as a headline. -/
def headline (count : Nat) : Text :=
  Decimal.digitsOf count ++
    (if count = 1 then " validation error".toList else " validation errors".toList) ++
    " for AnalyzerConfig".toList

def message (path : Text) : ConfigFault → Text
  | .missing => "Configuration file not found: ".toList ++ path
  | .malformed fault source position =>
    "Invalid configuration in ".toList ++ path ++ ": ".toList ++ fault.located source position
  | .notAnObject value =>
    "Invalid configuration in ".toList ++ path ++ ": ".toList ++ rejection value
  | .invalid problems =>
    "Invalid configuration in ".toList ++ path ++ ": ".toList ++ headline problems.length

end ConfigFault

def SaveError.message : SaveError → Text
  | .path cause => cause.message
  | .unwritable fault file => fault.message file

def ConfigError.message : ConfigError → Text
  | .config fault file => fault.message file
  | .undecodable cause => cause.message
  | .numeral cause => cause.message
  | .path cause => cause.message
  | .denied file => permissionDenied file

end CHeader
