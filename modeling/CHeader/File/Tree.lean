import CHeader.File.Path
import CHeader.Table
import CHeader.Text.Utf8

/-!
# File trees

A file tree holds files, directories and symbolic links, each at a location: the names on the way
from the root. Following a path enters directories, follows links, forty at most, and takes double
dots to the directory above.
-/
namespace CHeader

open Text

abbrev Location := List Text

inductive Entry where
  | file (contents : Bytes)
  | link (target : Text)
  | directory
  deriving DecidableEq, Repr, Inhabited

/-- How a file refuses to be read: the answer is no when access is asked for beforehand, or reading
fails, or both. Only headers are asked for beforehand. -/
inductive Denial where
  | access
  | read
  | both
  deriving DecidableEq, Repr

structure FileTree where
  entries : Table Location Entry
  workingDirectory : Location
  denials : Table Location Denial
  deriving Repr, Inhabited

namespace FileTree

/-- A name that a directory can hold. -/
def isName (name : Text) : Bool :=
  name != [] && name != ['.'] && name != ['.', '.'] && '/' ∉ name && '\x00' ∉ name

def isDirectory (tree : FileTree) (location : Location) : Bool :=
  location.isEmpty || tree.entries.get? location == some .directory

/-- The entry at a location of names, if every location above it is a directory. -/
def lookup (tree : FileTree) (location : Location) : Option Entry :=
  if location.all isName &&
      (List.range location.length).all fun depth => tree.isDirectory (location.take depth) then
    if location.isEmpty then some .directory else tree.entries.get? location
  else none

/-- Follow names from a directory on, through at most `links` links. -/
def follow (tree : FileTree) (links : Nat) (start : Location) (names : List Text) :
    Option (Location × Entry) :=
  match names with
  | [] => some (start, .directory)
  | name :: rest =>
    if name = [] ∨ name = ['.'] then follow tree links start rest
    else if name = ['.', '.'] then follow tree links start.dropLast rest
    else
      match tree.lookup (start ++ [name]) with
      | none => none
      | some .directory => follow tree links (start ++ [name]) rest
      | some (.file contents) =>
        if rest = [] then some (start ++ [name], .file contents) else none
      | some (.link target) =>
        match links with
        | 0 => none
        | links + 1 =>
          follow tree links (if target.head? = some '/' then [] else start)
            (splitOn '/' target ++ rest)
termination_by (links, names.length)

def linkLimit : Nat := 40

/-- The file or directory that a path leads to, and its location. -/
def find? (tree : FileTree) (path : Text) : Option (Location × Entry) :=
  if '\x00' ∈ path ∨ path = [] then none
  else
    tree.follow linkLimit (if path.head? = some '/' then [] else tree.workingDirectory)
      (splitOn '/' path)

def isFile (tree : FileTree) (path : Text) : Bool :=
  match tree.find? path with
  | some (_, .file _) => true
  | _ => false

/-- Reading the file at a location does not fail. -/
def readable (tree : FileTree) (location : Location) : Bool :=
  match tree.denials.get? location with
  | some .read | some .both => false
  | some .access | none => true

/-! ## Writing under a path -/

/-- Why no file can be written under a path. -/
inductive WriteFault where
  | missing
  | notDirectory
  | directory
  | tooManyLinks
  deriving DecidableEq, Repr

/-- Where a file comes to stand that is written under names from a directory on, through at most
`links` links. Only the last name may be missing. -/
def place (tree : FileTree) (links : Nat) (start : Location) (names : List Text) :
    Except WriteFault Location :=
  match names with
  | [] => .error .directory
  | name :: rest =>
    if name = [] ∨ name = ['.'] then place tree links start rest
    else if name = ['.', '.'] then place tree links start.dropLast rest
    else
      match tree.lookup (start ++ [name]) with
      | none =>
        if rest = [] ∧ tree.lookup start = some .directory ∧ isName name then
          .ok (start ++ [name])
        else .error .missing
      | some .directory => place tree links (start ++ [name]) rest
      | some (.file _) => if rest = [] then .ok (start ++ [name]) else .error .notDirectory
      | some (.link target) =>
        match links with
        | 0 => .error .tooManyLinks
        | links + 1 =>
          place tree links (if target.head? = some '/' then [] else start)
            (splitOn '/' target ++ rest)
termination_by (links, names.length)

/-- Where a file comes to stand that is written under a path. -/
def destination (tree : FileTree) (path : Text) : Except WriteFault Location :=
  tree.place linkLimit (if path.head? = some '/' then [] else tree.workingDirectory)
    (splitOn '/' path)

/-! ## Changing a tree -/

/-- Enter the directories above a location. -/
def makeParents (tree : FileTree) (location : Location) : FileTree :=
  { tree with
    entries := (List.range location.length).foldl (fun entries depth =>
      if depth = 0 ∨ (entries.get? (location.take depth)).isSome then entries
      else entries.set (location.take depth) .directory) tree.entries }

def put (tree : FileTree) (location : Location) (entry : Entry) : FileTree :=
  let tree := tree.makeParents location
  { tree with entries := tree.entries.set location entry }

/-- Remove what stands at a location and below it. -/
def remove (tree : FileTree) (location : Location) : FileTree :=
  { tree with entries := tree.entries.filter fun (known, _) => !location.isPrefixOf known }

def deny (tree : FileTree) (location : Location) : Option Denial → FileTree
  | some denial => { tree with denials := tree.denials.set location denial }
  | none => { tree with denials := tree.denials.filter fun (known, _) => known ≠ location }

end FileTree

end CHeader
