import CHeader.Proofs.Resolver.Memory

/-!
# The dependencies of a header

What is answered about a header that is not remembered: all that it includes, directly or not, each
once. A header is among its own dependencies if it lies on an include cycle.
-/
namespace CHeader.Resolver

open Text Relation

variable {tree : FileTree} {r : Resolver} {header path text : Text} {searchPaths : List Text}

theorem dependencies_transitive {s : Session} (canonical : tree.canonical header = .ok path)
    (readable : readHeader tree path = .ok text)
    (missed : s.cache.fetch tree path searchPaths = .ok none) :
    ∃ found after, r.dependencies tree header searchPaths s = (.ok found, after) ∧ found.Nodup ∧
      (∀ target, target ∈ found ↔ TransGen (r.scope tree searchPaths).Includes path target) ∧
      (path ∈ found ↔ (r.scope tree searchPaths).OnCycle path) := by
  obtain ⟨d, discovered, distinct, reached⟩ :=
    (r.scope tree searchPaths).discover_ok readable
  obtain ⟨key, again, -, -⟩ := readHeader_canonical readable
  have unknown : s.cache.get? (key, searchPaths) = none := by
    simpa only [Cache.fetch, Cache.key, again, Except.map, Except.ok.injEq] using missed
  have answered := dependencies_miss (r := r) ⟨canonical, again⟩ unknown
  rw [discovered] at answered
  exact ⟨d.found, _, answered, distinct, reached, reached path⟩

/-- Two headers that include each other, beside a third one that cannot be read. -/
def mutualTree : FileTree where
  entries := [
    (["p".toList], .directory),
    (["p".toList, "a.h".toList], .file (encode "#include \"b.h\"\n".toList)),
    (["p".toList, "b.h".toList], .file (encode "#include <a.h>\n#include <c.h>\n".toList)),
    (["p".toList, "c.h".toList], .file (encode "#include \"a.h\"\n".toList))]
  workingDirectory := ["p".toList]
  denials := [(["p".toList, "c.h".toList], .access)]

theorem dependencies_transitive_mutual :
    ∃ found after,
      (Resolver.mk []).dependencies mutualTree "a.h".toList [] .empty = (.ok found, after) ∧
      found.Nodup ∧
      (∀ target, target ∈ found ↔
        TransGen ((Resolver.mk []).scope mutualTree []).Includes "/p/a.h".toList target) ∧
      ("/p/a.h".toList ∈ found ↔
        ((Resolver.mk []).scope mutualTree []).OnCycle "/p/a.h".toList) := by
  have readable : readHeader mutualTree "/p/a.h".toList = .ok "#include \"b.h\"\n".toList := by cbv
  exact dependencies_transitive (r := ⟨[]⟩) (by cbv) readable (by cbv)

end CHeader.Resolver
