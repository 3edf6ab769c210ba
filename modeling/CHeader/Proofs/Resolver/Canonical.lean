import CHeader.Proofs.Resolver.Recall

/-!
# Canonical paths in answers and in the memory

The memory takes the canonical path of what it is asked for, and a resolver asks it for a canonical
path. For a path without a loop the second time changes nothing: whichever of its spellings is asked
for, one entry is read and written. The files that are listed have paths that are canonical, as long
as only resolvers have written to the memory, so that a file is listed once, however many links lead
to it.
-/
namespace CHeader

open Text

variable {tree : FileTree}

namespace FileTree

/-- Whatever spelling leads to a file, its canonical path is the path of the file. -/
theorem HasFile.canonical_of_find? {path spelling : Text} {location : Location} {contents : Bytes}
    (file : tree.HasFile path) (leads : tree.find? spelling = some (location, .file contents))
    (same : (tree.find? path).map Prod.fst = some location) : tree.canonical spelling = .ok path := by
  obtain ⟨place, other, rfl, present⟩ := file
  rw [find?_locationText present] at same
  cases same
  exact FileTree.canonical_of_find? leads

end FileTree

namespace Resolver

variable {r : Resolver} {s : Session} {header spelling place : Text} {searchPaths found : List Text}

/-! ## One entry for all spellings -/

/-- Whoever asks with the spelling reads and writes what is kept under the place. -/
structure KeptUnder (r : Resolver) (tree : FileTree) (spelling place : Text) : Prop where
  fetch : ∀ (cache : Cache) searchPaths,
    cache.fetch tree spelling searchPaths = .ok (cache.get? (place, searchPaths))
  store : ∀ (cache : Cache) searchPaths found,
    cache.store tree spelling searchPaths found = .ok (cache.set (place, searchPaths) found)
  answer : ∀ searchPaths s found, (r.dependencies tree spelling searchPaths s).1 = .ok found →
    (r.dependencies tree spelling searchPaths s).2.cache.get? (place, searchPaths) = some found

theorem keptUnder_of_canonical (r : Resolver) (first : tree.canonical spelling = .ok place)
    (own : tree.canonical place = .ok place) : r.KeptUnder tree spelling place := by
  constructor
  · intro cache searchPaths
    rw [Cache.fetch, Cache.key, first]
    rfl
  · intro cache searchPaths found
    rw [Cache.store, Cache.key, first]
    rfl
  · intro searchPaths s found answered
    obtain ⟨path, key, keyed, known, -⟩ := dependencies_eq_ok answered
    rw [keyed.key_unique ⟨first, own⟩] at known
    exact known

/-- A spelling is as good as its canonical path. -/
theorem dependencies_congr (r : Resolver) (same : tree.canonical header = tree.canonical spelling)
    (searchPaths : List Text) (s : Session) :
    r.dependencies tree header searchPaths s = r.dependencies tree spelling searchPaths s := by
  rw [dependencies, dependencies, same]

/-! ## Memories that only resolvers write to -/

/-- Nothing was remembered at first, and what was entered since then was entered by calls. -/
inductive Unseeded (tree : FileTree) : Session → Prop
  | start : Unseeded tree .empty
  | call {s : Session} (r : Resolver) (call : Call) (earlier : Unseeded tree s) :
      Unseeded tree (call.run r tree s).2
  | clear {s : Session} (earlier : Unseeded tree s) : Unseeded tree { s with cache := [] }

theorem Unseeded.listsFiles (unseeded : Unseeded tree s) : ListsFiles tree s.cache := by
  induction unseeded with
  | start => exact listsFiles_nil tree
  | call r call _ ih => exact (call.run_grows r tree _).listsFiles ih
  | clear => exact listsFiles_nil tree

/-- An answer lists files, with each file once, if what is remembered does. -/
theorem dependencies_listsFiles (files : ListsFiles tree s.cache)
    (answered : (r.dependencies tree header searchPaths s).1 = .ok found) :
    found.Nodup ∧ ∀ target ∈ found, tree.HasFile target := by
  have later := (r.dependencies_grows tree header searchPaths s).listsFiles files
  obtain ⟨path, key, -, known, -⟩ := dependencies_eq_ok answered
  exact later (key, searchPaths) found (Table.mem_of_get? known)

/-! ## Canonical answers -/

/-- A path without a loop has a canonical path, in which no link is left and which is its own canonical
path. Both are kept under it, and both have the same answers. What is answered lists canonical paths
only, and of each file that some spelling leads to only the canonical path of that spelling. -/
theorem dependencies_canonical (r : Resolver) (working : tree.Real tree.workingDirectory) :
    (∀ path, tree.LoopFree path →
      ∃ place, tree.canonical path = .ok place ∧ tree.IsCanonical place ∧
        tree.canonical place = .ok place ∧
        r.KeptUnder tree path place ∧ r.KeptUnder tree place place ∧
        ∀ searchPaths s,
          r.dependencies tree path searchPaths s = r.dependencies tree place searchPaths s) ∧
    ∀ s, Unseeded tree s → ∀ header searchPaths found,
      (r.dependencies tree header searchPaths s).1 = .ok found →
        found.Nodup ∧ ∀ target ∈ found, tree.IsCanonical target ∧
          tree.canonical target = .ok target ∧
          ∀ spelling location contents, tree.find? spelling = some (location, .file contents) →
            (tree.find? target).map Prod.fst = some location →
              tree.canonical spelling = .ok target := by
  refine ⟨fun path loopFree => ?_, fun s unseeded header searchPaths found answered => ?_⟩
  · obtain ⟨place, canonical, isCanonical⟩ := FileTree.canonical_of_loopFree working loopFree
    have own := isCanonical.canonical
    exact ⟨place, canonical, isCanonical, own, r.keptUnder_of_canonical canonical own,
      r.keptUnder_of_canonical own own, r.dependencies_congr (canonical.trans own.symm)⟩
  · obtain ⟨once, files⟩ := dependencies_listsFiles unseeded.listsFiles answered
    refine ⟨once, fun target member => ?_⟩
    have file := files target member
    exact ⟨file.isCanonical, file.isCanonical.canonical, fun _ _ _ => file.canonical_of_find?⟩

/-- Links that start at the root or go up, through other links and through a name that does not exist.
The header includes one file under two names. -/
def linkedTree : FileTree where
  entries := [
    (["p".toList], .directory),
    (["p".toList, "s".toList], .directory),
    (["p".toList, "s".toList, "a.h".toList],
      .file (encode "#include \"b.h\"\n#include \"../c.h\"\n".toList)),
    (["p".toList, "s".toList, "b.h".toList], .link "../n/c.h".toList),
    (["p".toList, "c.h".toList], .file []),
    (["p".toList, "l".toList], .link "/p/s".toList),
    (["p".toList, "m".toList], .link "gone/../l".toList),
    (["p".toList, "n".toList], .link "s/..".toList)]
  workingDirectory := ["p".toList]
  denials := []

/-- The header is asked for through two links, one after the other. -/
theorem dependencies_canonical_linked :
    let r : Resolver := ⟨[]⟩
    let asked := ((Call.dependencies "l/a.h".toList []).run r linkedTree .empty).2
    linkedTree.Real linkedTree.workingDirectory ∧
      linkedTree.LoopFree "m/./a.h".toList ∧
      r.KeptUnder linkedTree "m/./a.h".toList "/p/s/a.h".toList ∧
      Unseeded linkedTree asked ∧
      (r.dependencies linkedTree "m/./a.h".toList [] asked).1 = .ok ["/p/c.h".toList] ∧
      linkedTree.IsCanonical "/p/c.h".toList ∧
      linkedTree.canonical "l/b.h".toList = .ok "/p/c.h".toList := by
  intro r asked
  have working : linkedTree.Real linkedTree.workingDirectory := by
    refine (FileTree.real_root linkedTree).concat (by decide) fun target linked => ?_
    have present : linkedTree.lookup ([] ++ ["p".toList]) = some .directory := by decide
    rw [present] at linked
    cases linked
  have loopFree : linkedTree.LoopFree "m/./a.h".toList :=
    FileTree.loopFree_iff_reached.mpr ⟨_, _, by cbv⟩
  have canonical : linkedTree.canonical "m/./a.h".toList = .ok "/p/s/a.h".toList := by cbv
  have unseeded : Unseeded linkedTree asked := .call r _ .start
  have answered : ((Resolver.mk []).dependencies linkedTree "m/./a.h".toList []
      ((Call.dependencies "l/a.h".toList []).run ⟨[]⟩ linkedTree .empty).2).1 =
      .ok ["/p/c.h".toList] := by cbv
  have leads : linkedTree.find? "l/b.h".toList = some (["p".toList, "c.h".toList], .file []) := by cbv
  have own : linkedTree.find? "/p/c.h".toList = some (["p".toList, "c.h".toList], .file []) := by cbv
  obtain ⟨spelled, listed⟩ := dependencies_canonical r working
  obtain ⟨place, same, -, -, kept, -⟩ := spelled _ loopFree
  rw [canonical, Except.ok.injEq] at same
  obtain ⟨isCanonical, -, onlyOnce⟩ :=
    (listed asked unseeded _ [] _ answered).2 "/p/c.h".toList List.mem_cons_self
  exact ⟨working, loopFree, same ▸ kept, unseeded, answered, isCanonical,
    onlyOnce _ _ _ leads (by rw [own]; rfl)⟩

end Resolver

end CHeader
