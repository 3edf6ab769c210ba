import CHeader.Resolver.Discovery
import CHeader.Proofs.Header
import Mathlib.Logic.Relation

/-!
# The include relation

A header that can be read includes the files at which its names are located. What is included is
always the location of a file, so all that is included, directly or not, is among the entries of the
tree.
-/
namespace CHeader.Scope

open Text Relation

variable {scope : Scope}

/-- A header includes what one of the names in its text is located at, seen from its directory. -/
def Includes (scope : Scope) (header target : Text) : Prop :=
  ∃ text, readHeader scope.tree header = .ok text ∧
    ∃ name ∈ Include.extract text, scope.locate? (directoryOf header) name = some target

/-- A header lies on an include cycle; one that includes itself does. -/
def OnCycle (scope : Scope) (header : Text) : Prop := TransGen scope.Includes header header

/-- One of the roots is the header, or includes it directly or not. -/
def Reached (scope : Scope) (roots : List Text) (header : Text) : Prop :=
  ∃ root ∈ roots, ∃ path, scope.tree.canonical root = .ok path ∧
    ReflTransGen scope.Includes path header

/-- A list of the headers that the roots reach, in which each stands after all that it includes. -/
structure IncludeOrder (scope : Scope) (roots order : List Text) : Prop where
  distinct : order.Nodup
  members : ∀ header, header ∈ order ↔ scope.Reached roots header
  before : ∀ header ∈ order, ∀ target, scope.Includes header target →
    target ∈ order ∧ order.idxOf target < order.idxOf header

theorem includes_iff {header text : Text} (readable : readHeader scope.tree header = .ok text)
    (target : Text) : scope.Includes header target ↔
      ∃ name ∈ Include.extract text, scope.locate? (directoryOf header) name = some target := by
  constructor
  · rintro ⟨again, same, located⟩
    rw [readable, Except.ok.injEq] at same
    exact same ▸ located
  · exact fun located => ⟨text, readable, located⟩

theorem not_includes_of_error {header : Text} {cause : HeaderError}
    (unreadable : readHeader scope.tree header = .error cause) (target : Text) :
    ¬scope.Includes header target := by
  rintro ⟨text, readable, -⟩
  rw [unreadable] at readable
  cases readable

theorem not_includes_of_missing {header text : Text}
    (readable : readHeader scope.tree header = .ok text)
    (missing : ∀ name ∈ Include.extract text, scope.locate? (directoryOf header) name = none)
    (target : Text) : ¬scope.Includes header target := by
  intro includes
  obtain ⟨name, member, located⟩ := (includes_iff readable target).mp includes
  rw [missing name member] at located
  cases located

theorem hasFile_of_locate? {directory name target : Text}
    (located : scope.locate? directory name = some target) : scope.tree.HasFile target := by
  unfold locate? at located
  obtain ⟨place, -, found⟩ := List.exists_of_findSome?_eq_some located
  dsimp only at found
  split at found
  next file =>
    unfold FileTree.isFile at file
    split at file
    next location contents reached =>
      rw [FileTree.canonical_of_find? reached] at found
      cases found
      exact FileTree.hasFile_of_find? reached
    next => cases file
  next => cases found

theorem Includes.hasFile {header target : Text} (includes : scope.Includes header target) :
    scope.tree.HasFile target := by
  obtain ⟨_, _, _, _, located⟩ := includes
  exact hasFile_of_locate? located

theorem hasFile_of_transGen (scope : Scope) {header target : Text}
    (reached : TransGen scope.Includes header target) : scope.tree.HasFile target := by
  cases reached with
  | single includes => exact includes.hasFile
  | tail _ includes => exact includes.hasFile

theorem canonical_of_reflTransGen (scope : Scope) {first header : Text}
    (own : scope.tree.canonical first = .ok first)
    (reached : ReflTransGen scope.Includes first header) :
    scope.tree.canonical header = .ok header := by
  rcases ReflTransGen.cases_tail reached with rfl | ⟨_, _, includes⟩
  · exact own
  · exact FileTree.canonical_of_hasFile includes.hasFile

/-- A single root reaches itself and what it includes. -/
theorem reached_singleton (scope : Scope) {root path header : Text}
    (canonical : scope.tree.canonical root = .ok path) :
    scope.Reached [root] header ↔ header = path ∨ TransGen scope.Includes path header := by
  rw [← reflTransGen_iff_eq_or_transGen]
  constructor
  · rintro ⟨asked, member, place, same, reached⟩
    cases List.mem_singleton.mp member
    rw [canonical, Except.ok.injEq] at same
    exact same ▸ reached
  · exact fun reached => ⟨root, List.mem_singleton_self root, path, canonical, reached⟩

/-- No path of distinct headers is longer than its start and the entries together. -/
theorem length_le_of_chain {root : Text} {chain : List Text} (distinct : chain.Nodup)
    (files : ∀ header ∈ chain, header = root ∨ scope.tree.HasFile header) :
    chain.length ≤ scope.tree.entries.length + 1 := by
  have inside : chain ⊆ root :: (Table.keys scope.tree.entries).map FileTree.locationText := by
    intro header member
    rcases files header member with rfl | file
    · exact List.mem_cons_self
    · exact List.mem_cons_of_mem _ (FileTree.hasFile_mem file)
  have bound := (distinct.subperm inside).length_le
  simpa [Table.keys] using bound

end CHeader.Scope
