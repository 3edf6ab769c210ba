import CHeader.File.Tree

/-!
# Canonical paths

The canonical path of a file has a root and no link, dot or empty name in it. It is found name by
name, with links replaced by what they lead to; names that do not exist stay as they are. Where links
run in a circle, the rest of the path is kept and tidied by its spelling alone.
-/
namespace CHeader

open Text

/-- A path as far as it is resolved: names from the root, or from a directory that lies some levels
above the working directory. -/
structure Resolved where
  ups : Option Nat
  names : List Text
  deriving DecidableEq, Repr, Inhabited

namespace Resolved

def root : Resolved := ⟨none, []⟩

def working : Resolved := ⟨some 0, []⟩

def child (path : Resolved) (name : Text) : Resolved := { path with names := path.names ++ [name] }

def above (path : Resolved) : Resolved :=
  if path.names = [] then { path with ups := path.ups.map (· + 1) }
  else { path with names := path.names.dropLast }

def location (tree : FileTree) (path : Resolved) : Location :=
  match path.ups with
  | none => path.names
  | some ups => tree.workingDirectory.take (tree.workingDirectory.length - ups) ++ path.names

def toText (path : Resolved) : Text :=
  match path.ups with
  | none => '/' :: joinWith ['/'] path.names
  | some ups => joinWith ['/'] (List.replicate ups ['.', '.'] ++ path.names)

end Resolved

inductive Resolution where
  | reached (path : Resolved)
  /-- The spelling that is left when a link leads back to itself. -/
  | looped (spelling : Text)
  deriving DecidableEq, Repr

inductive PathError where
  /-- The path holds the character that ends file names. -/
  | nullCharacter
  deriving DecidableEq, Repr

/-- Links that were met, with what they lead to once that is known. -/
abbrev LinkTable := Table Resolved (Option Resolved)

namespace FileTree

def locationText (location : Location) : Text := '/' :: joinWith ['/'] location

/-- A spelling continued by another one; one that starts at the root stands by itself. -/
def continueText (spelling rest : Text) : Text :=
  if rest.head? = some '/' then rest
  else if spelling = [] ∨ spelling.getLast? = some '/' then spelling ++ rest
  else spelling ++ '/' :: rest

/-- Resolve names from a path on. Each link is entered once, so that `fuel`, which counts entered
links, need not be more than there are spellings of links. -/
def resolve (tree : FileTree) (fuel : Nat) (met : LinkTable) (here : Resolved)
    (names : List Text) : Except PathError (Resolution × LinkTable) :=
  match names with
  | [] => .ok (.reached here, met)
  | name :: rest =>
    if name = [] ∨ name = ['.'] then resolve tree fuel met here rest
    else if name = ['.', '.'] then resolve tree fuel met here.above rest
    else if '\x00' ∈ name then .error .nullCharacter
    else
      let next := here.child name
      let loop := Resolution.looped (continueText next.toText (joinWith ['/'] rest))
      match tree.lookup (next.location tree) with
      | some (.link target) =>
        match met.get? next with
        | some (some known) => resolve tree fuel met known rest
        -- its target is being followed, so the link leads back to itself
        | some none => .ok (loop, met)
        | none =>
          match fuel with
          | 0 => .ok (loop, met)
          | fuel + 1 =>
            match resolve tree fuel (met.set next none)
                (if target.head? = some '/' then .root else here) (splitOn '/' target) with
            | .error e => .error e
            -- behind a loop nothing is resolved any more
            | .ok (.looped spelling, met) =>
              .ok (.looped (continueText spelling (joinWith ['/'] rest)), met)
            | .ok (.reached known, met) =>
              resolve tree (fuel + 1) (met.set next (some known)) known rest
      | _ => resolve tree fuel met next rest
termination_by (fuel, names.length)

/-- The location that an absolute spelling names if no name in it is a link. -/
def literalNames (spelling : Text) : Location :=
  (splitOn '/' spelling).foldl (fun names name =>
    if name = [] ∨ name = ['.'] then names
    else if name = ['.', '.'] then names.dropLast
    else names ++ [name]) []

/-- An absolute spelling, tidied without a look at the tree. Two slashes in front stay two. -/
def literalText (spelling : Text) : Text :=
  Path.rootOf spelling ++ joinWith ['/'] (literalNames spelling)

def canonical (tree : FileTree) (path : Text) : Except PathError Text :=
  let start := if path.head? = some '/' then Resolved.root else .working
  let fuel := tree.entries.length * (tree.workingDirectory.length + 2)
  match tree.resolve fuel [] start (splitOn '/' path) with
  | .error e => .error e
  | .ok (.reached found, _) => .ok (locationText (found.location tree))
  | .ok (.looped spelling, _) =>
    .ok (literalText (continueText (locationText tree.workingDirectory) spelling))

/-- The location of a canonical path. -/
def locationOf (canonical : Text) : Location := (splitOn '/' canonical).filter (· ≠ [])

end FileTree

end CHeader
