import CHeader.Include
import CHeader.Header
import CHeader.Log

/-!
# Discovering included headers

The headers reachable from a header through its includes, each once, in the order in which a
depth-first walk meets them. A name is looked for beside the including header, then on the search
paths, then on the system paths. Headers that cannot be read are met but not entered.
-/
namespace CHeader

open Text

/-- Where names of headers are looked for. -/
structure Scope where
  tree : FileTree
  searchPaths : List Text
  systemPaths : List Text

/-- The headers met so far and what happened on the way. -/
structure Discovery where
  found : List Text
  events : List Event
  deriving DecidableEq, Repr

namespace Discovery

def empty : Discovery := ⟨[], []⟩

def note (event : Event) (d : Discovery) : Discovery := { d with events := d.events ++ [event] }

def meet (header : Text) (d : Discovery) : Discovery := { d with found := d.found ++ [header] }

end Discovery

namespace Scope

/-- The canonical path of the first file that a name leads to. -/
def locate? (scope : Scope) (directory name : Text) : Option Text :=
  (directory :: scope.searchPaths ++ scope.systemPaths).findSome? fun place =>
    let candidate := Path.joinText place name
    if scope.tree.isFile candidate then (scope.tree.canonical candidate).toOption else none

/-- The directory of a canonical path. -/
def directoryOf (path : Text) : Text := (Path.ofText path).parent.toText

/-- Follow the includes of a header with the given text; `chain` holds the headers that are being
followed. -/
def follow (scope : Scope) : (fuel : Nat) → (chain : List Text) → (path text : Text) →
    Discovery → Discovery
  | 0, _, _, _, d => d
  | fuel + 1, chain, path, text, d =>
    (Include.extract text).foldl (fun d name =>
      match scope.locate? (directoryOf path) name with
      | none => d.note (.missing name path)
      | some target =>
        if target ∈ d.found then d
        -- a header that includes itself, directly or not, is met once and not followed again
        else if target ∈ path :: chain then d.meet target
        else
          let met := (d.meet target).note (.opened target)
          match readHeader scope.tree target with
          | .error cause => met.note (.notFollowed target cause)
          | .ok text => follow scope fuel (path :: chain) target text met) d

/-- The headers included by a header, directly or not. A chain has no more members than the tree has
files, so the depth allowed is never reached. -/
def discover (scope : Scope) (path : Text) : Except HeaderError Discovery :=
  match readHeader scope.tree path with
  | .error cause => .error cause
  | .ok text =>
    .ok (scope.follow (scope.tree.entries.length + 2) [] path text
      (Discovery.empty.note (.opened path)))

end Scope

end CHeader
