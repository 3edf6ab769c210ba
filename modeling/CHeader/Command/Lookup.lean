import CHeader.Command.Run

/-!
# What a run looks at

A run asks a file tree for the paths of configurations, of headers, and of the places where included
names may be found. A tree that holds part of a file system shows these paths as far as it goes, and
the first location on each that it holds nothing for. When all such locations have been looked up, a
run on the tree ends as it would on the whole file system.
-/
namespace CHeader

open Text

namespace FileTree

/-- The first location that is not in the tree when names are followed from a directory on. -/
def unknownFrom (tree : FileTree) (links : Nat) (start : Location) (names : List Text) :
    Option Location :=
  match names with
  | [] => none
  | name :: rest =>
    if name = [] ∨ name = ['.'] then unknownFrom tree links start rest
    else if name = ['.', '.'] then unknownFrom tree links start.dropLast rest
    else
      match tree.entries.get? (start ++ [name]) with
      | none => some (start ++ [name])
      | some .directory => unknownFrom tree links (start ++ [name]) rest
      | some (.file _) => none
      | some (.link target) =>
        match links with
        | 0 => none
        | links + 1 =>
          unknownFrom tree links (if target.head? = some '/' then [] else start)
            (splitOn '/' target ++ rest)
termination_by (links, names.length)

/-- The first location on a path that is not in the tree. -/
def unknown? (tree : FileTree) (path : Text) : Option Location :=
  if '\x00' ∈ path then none
  else
    tree.unknownFrom linkLimit (if path.head? = some '/' then [] else tree.workingDirectory)
      (splitOn '/' path)

end FileTree

namespace Program

/-- Where the names that the files of a tree include may be found. -/
def includePaths (tree : FileTree) (places : List Text) : List Text :=
  tree.entries.flatMap fun (location, entry) =>
    match entry with
    | .file contents =>
      (Include.extract (universalNewlines (decodeReplacing contents))).flatMap fun name =>
        (FileTree.locationText location.dropLast :: places).map (Path.joinText · name)
    | _ => []

/-- The headers that are asked for, and the places for included names. -/
def commandPaths (tree : FileTree) (read : Arguments) (command : Command)
    (arguments : List Text) : List Text :=
  match Arguments.parse command.settings true arguments, Host.settle (readConfig .ample tree read) with
  | .ok given, .ok config =>
    let places := given.values .includeDir ++ config.searchDirectories ++ config.systemPaths
    given.others ++ config.headerPaths ++ places ++ includePaths tree places
  | _, _ => []

/-- The paths that a run looks at, as far as the tree shows them. -/
def paths (tree : FileTree) (arguments : List Text) : List Text :=
  match Arguments.parse Level.program.settings false arguments with
  | .error _ => []
  | .ok read =>
    (read.value? .config).toList ++
      Config.candidates (FileTree.locationText tree.workingDirectory) ++
      match read.others with
      | [] => []
      | name :: rest =>
        match Command.ofName? name with
        | some command => commandPaths tree read command rest
        | none => []

/-- The locations on those paths that are not in the tree. -/
def unknownLocations (tree : FileTree) (arguments : List Text) : List Location :=
  ((paths tree arguments).filterMap tree.unknown?).eraseDups

end Program

end CHeader
