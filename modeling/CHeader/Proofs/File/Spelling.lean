import CHeader.File.Path
import CHeader.Proofs.Text.Pieces

/-!
# The names in a spelling

Splitting a path at its slashes undoes joining names by slashes, so that a path is read back from its
text. Tidying a path changes neither where it starts nor the names in it that mean anything.
-/
namespace CHeader

namespace Path

open Text

/-- A name that is neither empty nor a single dot. -/
def isMeaningful (name : Text) : Bool := name ≠ [] ∧ name ≠ ['.']

/-- A root as paths have it, and names that mean something. -/
structure Proper (path : Path) : Prop where
  rooted : path.root = [] ∨ path.root = ['/'] ∨ path.root = ['/', '/']
  clean : ∀ name ∈ path.names, '/' ∉ name
  meaningful : ∀ name ∈ path.names, isMeaningful name = true

theorem rootOf_cases (s : Text) : rootOf s = [] ∨ rootOf s = ['/'] ∨ rootOf s = ['/', '/'] := by
  unfold rootOf
  split <;> simp

theorem proper_ofText (s : Text) : (ofText s).Proper :=
  ⟨rootOf_cases s, fun _ member => not_mem_of_mem_splitOn (List.mem_of_mem_filter member),
    fun _ member => (List.mem_filter.mp member).2⟩

theorem Proper.parent {path : Path} (proper : path.Proper) : path.parent.Proper :=
  ⟨proper.rooted, fun name member => proper.clean name (List.dropLast_subset _ member),
    fun name member => proper.meaningful name (List.dropLast_subset _ member)⟩

theorem rootOf_eq_nil_iff (s : Text) : rootOf s = [] ↔ s.head? ≠ some '/' := by
  unfold rootOf
  split
  · simp
  · simp
  · simp
  next relative =>
    cases s with
    | nil => simp
    | cons c rest =>
      have differ : c ≠ '/' := fun same => relative rest (by rw [same])
      simp [differ]

/-- Names that are joined by slashes do not begin with one. -/
theorem head?_joinWith_ne {names : List Text} (clean : ∀ name ∈ names, '/' ∉ name)
    (meaningful : ∀ name ∈ names, isMeaningful name = true) :
    (joinWith ['/'] names).head? ≠ some '/' := by
  cases names with
  | nil => simp [joinWith]
  | cons name names =>
    have filled := meaningful name List.mem_cons_self
    have absent := clean name List.mem_cons_self
    have starts : (joinWith ['/'] (name :: names)).head? = name.head? := by
      cases names <;> cases name <;> simp_all [joinWith, isMeaningful]
    rw [starts]
    intro same
    exact absent (List.mem_of_head? same)

/-- Behind a root stands no further slash. -/
theorem Proper.rootOf_text {path : Path} (proper : path.Proper) :
    rootOf (path.root ++ joinWith ['/'] path.names) = path.root := by
  have start := head?_joinWith_ne proper.clean proper.meaningful
  rcases proper.rooted with root | root | root <;> rw [root]
  · exact (rootOf_eq_nil_iff _).mpr start
  all_goals
    cases joined : joinWith ['/'] path.names with
    | nil => rfl
    | cons c rest =>
      have differ : c ≠ '/' := fun same => start (by rw [joined, same]; rfl)
      simp [rootOf, differ]

theorem Proper.names_text {path : Path} (proper : path.Proper) :
    (splitOn '/' (path.root ++ joinWith ['/'] path.names)).filter isMeaningful = path.names := by
  obtain ⟨count, repeated⟩ : ∃ count, path.root = List.replicate count '/' := by
    rcases proper.rooted with root | root | root
    · exact ⟨0, root⟩
    · exact ⟨1, root⟩
    · exact ⟨2, root⟩
  have dropped : (List.replicate count ([] : Text)).filter isMeaningful = [] := by
    apply List.filter_eq_nil_iff.mpr
    intro name member
    rw [List.eq_of_mem_replicate member]
    decide
  rw [repeated, splitOn_replicate_append, List.filter_append, dropped, List.nil_append]
  by_cases bare : path.names = []
  · rw [bare]
    rfl
  · rw [splitOn_joinWith bare proper.clean, List.filter_eq_self.mpr proper.meaningful]

/-- A path is read back from its text. -/
theorem Proper.ofText_toText {path : Path} (proper : path.Proper) : ofText path.toText = path := by
  have root := proper.rootOf_text
  have names := proper.names_text
  unfold toText
  dsimp only
  split
  next nothing =>
    -- the path to the working directory is written as a dot
    rw [nothing] at root names
    exact congrArg₂ Path.mk root names
  next => exact congrArg₂ Path.mk root names

theorem ofText_tidy (s : Text) : ofText (tidy s) = ofText s := (proper_ofText s).ofText_toText

theorem tidy_ne_nil (s : Text) : tidy s ≠ [] := by
  unfold tidy toText
  dsimp only
  split
  next => simp
  next filled => exact filled

theorem meaningful_names_tidy (s : Text) :
    (splitOn '/' (tidy s)).filter isMeaningful = (splitOn '/' s).filter isMeaningful :=
  congrArg Path.names (ofText_tidy s)

theorem Proper.head?_toText {path : Path} (proper : path.Proper) :
    path.toText.head? = some '/' ↔ path.root ≠ [] := by
  have root := congrArg Path.root proper.ofText_toText
  have absolute := rootOf_eq_nil_iff path.toText
  change rootOf path.toText = path.root at root
  rw [root] at absolute
  exact not_iff_not.mp (by rw [not_not]; exact absolute.symm)

theorem head?_tidy (s : Text) : (tidy s).head? = some '/' ↔ s.head? = some '/' := by
  have relative : (ofText s).root ≠ [] ↔ s.head? = some '/' := by
    rw [← not_iff_not, not_not]
    exact rootOf_eq_nil_iff s
  rw [tidy, (proper_ofText s).head?_toText, relative]

/-- A root with names that mean something is tidy. -/
theorem tidy_append {root : Text} {names : List Text} (rooted : root = ['/'] ∨ root = ['/', '/'])
    (clean : ∀ name ∈ names, '/' ∉ name) (meaningful : ∀ name ∈ names, isMeaningful name = true) :
    tidy (root ++ joinWith ['/'] names) = root ++ joinWith ['/'] names := by
  have proper : (Path.mk root names).Proper := ⟨Or.inr rooted, clean, meaningful⟩
  have text : (Path.mk root names).toText = root ++ joinWith ['/'] names := by
    rcases rooted with rfl | rfl <;> simp [toText]
  rw [← text, tidy, proper.ofText_toText]

end Path

end CHeader
