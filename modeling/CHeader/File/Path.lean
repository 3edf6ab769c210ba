import CHeader.Text.Basic

/-!
# Paths

A path is a root, which relative paths lack, and names. Single dots and repeated slashes mean
nothing and are dropped; double dots stay, because what they mean depends on links.
-/
namespace CHeader

open Text

structure Path where
  /-- Nothing, one slash, or exactly two slashes. -/
  root : Text
  names : List Text
  deriving DecidableEq, Repr, Inhabited

namespace Path

def rootOf : Text → Text
  | '/' :: '/' :: '/' :: _ => ['/']
  | '/' :: '/' :: _ => ['/', '/']
  | '/' :: _ => ['/']
  | _ => []

def ofText (s : Text) : Path :=
  ⟨rootOf s, (splitOn '/' s).filter fun name => name ≠ [] ∧ name ≠ ['.']⟩

def toText (path : Path) : Text :=
  let text := path.root ++ joinWith ['/'] path.names
  if text = [] then ['.'] else text

/-- A path from a directory on; a path with a root stands by itself. -/
def join (directory path : Path) : Path :=
  if path.root = [] then ⟨directory.root, directory.names ++ path.names⟩ else path

def parent (path : Path) : Path := ⟨path.root, path.names.dropLast⟩

/-- The spelling of a path without what means nothing in it. -/
def tidy (s : Text) : Text := (ofText s).toText

def joinText (directory path : Text) : Text := ((ofText directory).join (ofText path)).toText

end Path

end CHeader
