import CHeader.Proofs.Resolver.Dependencies

/-!
# More search paths

Search paths are tried in their order, so that a path behind the others locates only names that were
found nowhere. Without system paths, which come last, more search paths leave every include as it was
and add new ones, at any depth and whatever cycles there are.
-/
namespace CHeader

open Text Relation

namespace Scope

variable {tree : FileTree} {searchPaths : List Text}

/-- What was located stays where it was. -/
theorem locate?_append {directory name target : Text} (more : List Text)
    (located : (Scope.mk tree searchPaths []).locate? directory name = some target) :
    (Scope.mk tree (searchPaths ++ more) []).locate? directory name = some target := by
  unfold locate? at located ⊢
  rw [List.append_nil] at located ⊢
  rw [← List.cons_append, List.findSome?_append, located]
  rfl

theorem Includes.append {header target : Text} (more : List Text)
    (includes : (Scope.mk tree searchPaths []).Includes header target) :
    (Scope.mk tree (searchPaths ++ more) []).Includes header target := by
  obtain ⟨text, readable, name, member, located⟩ := includes
  exact ⟨text, readable, name, member, locate?_append more located⟩

end Scope

namespace Resolver

variable {tree : FileTree} {header path text : Text}

theorem dependencies_append (searchPaths more : List Text)
    (canonical : tree.canonical header = .ok path) (readable : readHeader tree path = .ok text) :
    ∃ found wider,
      ((Resolver.mk []).dependencies tree header searchPaths .empty).1 = .ok found ∧
      ((Resolver.mk []).dependencies tree header (searchPaths ++ more) .empty).1 = .ok wider ∧
      found ⊆ wider := by
  obtain ⟨key, again, -, -⟩ := readHeader_canonical readable
  have keyed : tree.Keyed header path key := ⟨canonical, again⟩
  obtain ⟨found, answer⟩ := (Resolver.mk []).answer_of_readable searchPaths keyed readable
  obtain ⟨wider, wide⟩ := (Resolver.mk []).answer_of_readable (searchPaths ++ more) keyed readable
  refine ⟨found, wider, answer, wide, fun target member => ?_⟩
  -- both lists are transitive inclusion, whatever the order in which they were discovered
  have reached := ((mem_answer_iff canonical answer).2 target).mp member
  rw [(mem_answer_iff canonical wide).2 target]
  exact TransGen.mono (fun _ _ includes => includes.append more) _ _ reached

/-- A header on a search path, one of the same name on a later one, and one that only the later one
holds. -/
def searchedTree : FileTree where
  entries := [
    (["a.h".toList], .file (encode "#include <b.h>\n#include <c.h>\n".toList)),
    (["s".toList], .directory),
    (["s".toList, "b.h".toList], .file (encode "#include <c.h>\n".toList)),
    (["t".toList], .directory),
    (["t".toList, "b.h".toList], .file []),
    (["t".toList, "c.h".toList], .file (encode "#include \"../a.h\"\n".toList))]
  workingDirectory := []
  denials := []

/-- The later search path adds a header that closes a cycle. -/
theorem dependencies_append_searched : ∃ found wider,
    ((Resolver.mk []).dependencies searchedTree "a.h".toList ["/s".toList] .empty).1 = .ok found ∧
    ((Resolver.mk []).dependencies searchedTree "a.h".toList (["/s".toList] ++ ["/t".toList])
      .empty).1 = .ok wider ∧ found ⊆ wider := by
  have readable : readHeader searchedTree "/a.h".toList =
      .ok "#include <b.h>\n#include <c.h>\n".toList := by cbv
  exact dependencies_append ["/s".toList] ["/t".toList] (by cbv) readable

end Resolver

end CHeader
