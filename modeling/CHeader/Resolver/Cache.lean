import CHeader.File.Canonical

/-!
# The dependency cache

Dependency lists are kept under the canonical path of a header and the search paths that were used,
as they are spelled.
-/
namespace CHeader

abbrev CacheKey := Text × List Text

abbrev Cache := Table CacheKey (List Text)

namespace Cache

def key (tree : FileTree) (header : Text) (searchPaths : List Text) : Except PathError CacheKey :=
  (tree.canonical header).map (·, searchPaths)

def fetch (cache : Cache) (tree : FileTree) (header : Text) (searchPaths : List Text) :
    Except PathError (Option (List Text)) :=
  (key tree header searchPaths).map cache.get?

def store (cache : Cache) (tree : FileTree) (header : Text) (searchPaths dependencies : List Text) :
    Except PathError Cache :=
  (key tree header searchPaths).map fun key => cache.set key dependencies

/-- Is there an entry for the header, whatever the search paths? -/
def holds (cache : Cache) (tree : FileTree) (header : Text) : Except PathError Bool :=
  (tree.canonical header).map fun path => cache.keys.any fun key => key.1 = path

end Cache

end CHeader
