import CHeader.Header
import CHeader.Proofs.File.Fixpoint

/-!
# Headers at canonical paths

A path that is the location of a file is its own canonical path, and reading a header by any path
gives what reading it by the canonical path gives. There are no more such paths than entries.
-/
namespace CHeader

open Text

variable {tree : FileTree}

namespace FileTree

/-- The path is the location of a file. -/
def HasFile (tree : FileTree) (path : Text) : Prop :=
  ∃ location contents, path = locationText location ∧ tree.lookup location = some (.file contents)

theorem ne_nil_of_lookup_file {location : Location} {contents : Bytes}
    (present : tree.lookup location = some (.file contents)) : location ≠ [] := by
  rintro rfl
  simp [lookup] at present

theorem get?_of_lookup_file {location : Location} {contents : Bytes}
    (present : tree.lookup location = some (.file contents)) :
    tree.entries.get? location = some (.file contents) := by
  rcases List.eq_nil_or_concat location with rfl | ⟨directory, name, rfl⟩
  · exact absurd rfl (ne_nil_of_lookup_file present)
  · rw [List.concat_eq_append] at present ⊢
    exact get?_of_lookup_append present

/-- Above a location that holds something there are directories only. -/
theorem lookup_above {before after : Location} {entry : Entry}
    (present : tree.lookup (before ++ after) = some entry) (below : after ≠ []) :
    tree.lookup before = some .directory := by
  have named := isName_of_lookup present
  unfold lookup at present ⊢
  split at present
  next checked =>
    simp only [Bool.and_eq_true, List.all_eq_true, List.mem_range] at checked
    have shorter : before.length < (before ++ after).length := by
      have := List.length_pos_iff.mpr below
      rw [List.length_append]
      omega
    have here := checked.2 before.length shorter
    rw [List.take_left'] at here
    · simp only [isDirectory, Bool.or_eq_true, beq_iff_eq, List.isEmpty_iff] at here
      rw [if_pos]
      · rcases here with rfl | stored
        · rfl
        · split
          · rfl
          · exact stored
      · simp only [Bool.and_eq_true, List.all_eq_true, List.mem_range]
        refine ⟨fun name member => named name (List.mem_append_left _ member), fun depth less => ?_⟩
        have above := checked.2 depth (by omega)
        rwa [List.take_append_of_le_length (by omega)] at above
    · rfl
  next => cases present

theorem follow_locations {start rest : Location} {contents : Bytes} (links : Nat)
    (present : tree.lookup (start ++ rest) = some (.file contents)) (below : rest ≠ []) :
    tree.follow links start rest = some (start ++ rest, .file contents) := by
  induction rest generalizing start with
  | nil => exact absurd rfl below
  | cons name rest ih =>
    have named := (isName_iff name).mp (isName_of_lookup present name (by simp))
    rw [follow, if_neg (by simp [named]), if_neg named.2.2.1]
    by_cases last : rest = []
    · subst last
      simp only [present, ↓reduceIte]
    · -- every location above that of the file is a directory, so the walk goes on
      have whole : start ++ name :: rest = (start ++ [name]) ++ rest := by simp
      rw [whole] at present ⊢
      rw [lookup_above present last]
      exact ih present last

theorem find?_locationText {location : Location} {contents : Bytes}
    (present : tree.lookup location = some (.file contents)) :
    tree.find? (locationText location) = some (location, .file contents) := by
  have named : Named location := isName_of_lookup present
  have absent := not_mem_locationText named
  have filled : locationText location ≠ [] := by simp [locationText]
  have absolute : (locationText location).head? = some '/' := rfl
  rw [find?, if_neg (by simp [absent, filled]), if_pos absolute,
    named.splitOn_locationText (ne_nil_of_lookup_file present), follow, if_pos (Or.inl rfl)]
  exact follow_locations linkLimit present (ne_nil_of_lookup_file present)

/-- The path of a file is that of a real location: above the file there are directories only. -/
theorem HasFile.isCanonical {path : Text} (file : tree.HasFile path) : tree.IsCanonical path := by
  obtain ⟨location, contents, rfl, present⟩ := file
  refine ⟨location, rfl, isName_of_lookup present, fun depth target linked => ?_⟩
  have whole : location.take depth ++ location.drop depth = location := List.take_append_drop ..
  by_cases below : location.drop depth = []
  · rw [below, List.append_nil] at whole
    rw [whole, present] at linked
    cases linked
  · rw [← whole] at present
    rw [lookup_above present below] at linked
    cases linked

theorem canonical_of_hasFile {path : Text} (file : tree.HasFile path) :
    tree.canonical path = .ok path := file.isCanonical.canonical

theorem hasFile_of_find? {path : Text} {location : Location} {contents : Bytes}
    (found : tree.find? path = some (location, .file contents)) :
    tree.HasFile (locationText location) :=
  ⟨location, contents, rfl, lookup_of_find? found⟩

/-- Paths that are locations of files are among the entries. -/
theorem hasFile_mem {path : Text} (file : tree.HasFile path) :
    path ∈ (Table.keys tree.entries).map locationText := by
  obtain ⟨location, contents, rfl, present⟩ := file
  exact List.mem_map_of_mem (Table.mem_keys_of_get? (get?_of_lookup_file present))

theorem length_le_of_hasFile {paths : List Text} (distinct : paths.Nodup)
    (files : ∀ path ∈ paths, tree.HasFile path) : paths.length ≤ tree.entries.length := by
  have inside : paths ⊆ (Table.keys tree.entries).map locationText :=
    fun path member => hasFile_mem (files path member)
  have bound := (distinct.subperm inside).length_le
  simpa [Table.keys] using bound

end FileTree

/-! ## Reading -/

theorem readHeader_eq_ok_iff {path text : Text} :
    readHeader tree path = .ok text ↔
      ∃ location contents, tree.find? (Path.tidy path) = some (location, .file contents) ∧
        tree.denials.get? location = none ∧ universalNewlines (decodeReplacing contents) = text := by
  unfold readHeader
  dsimp only
  constructor
  · intro readable
    split at readable
    next location contents found =>
      split at readable
      · cases readable
      · cases readable
      · cases readable
      next allowed => exact ⟨location, contents, found, allowed, Except.ok.inj readable⟩
    next => cases readable
  · rintro ⟨location, contents, found, allowed, rfl⟩
    rw [found]
    dsimp only
    rw [allowed]

/-- There is no regular file at the path, or the file refuses access or to be read. -/
inductive FileTree.Refuses (tree : FileTree) (path : Text) : HeaderError → Prop
  | missing (absent : tree.isFile path = false) : Refuses tree path (.notFound path)
  | access {location : Location} {contents : Bytes}
      (found : tree.find? path = some (location, .file contents))
      (denied : tree.denials.get? location = some .access ∨
        tree.denials.get? location = some .both) :
      Refuses tree path (.notReadable path [])
  | read {location : Location} {contents : Bytes}
      (found : tree.find? path = some (location, .file contents))
      (denied : tree.denials.get? location = some .read) :
      Refuses tree path (.notReadable path (permissionDenied path))

theorem readHeader_eq_error_iff {path : Text} (tidied : Path.tidy path = path)
    {cause : HeaderError} : readHeader tree path = .error cause ↔ tree.Refuses path cause := by
  unfold readHeader
  rw [tidied]
  dsimp only
  constructor
  · intro unreadable
    split at unreadable
    next location contents found =>
      split at unreadable
      next denied =>
        cases unreadable
        exact .access found (.inl denied)
      next denied =>
        cases unreadable
        exact .access found (.inr denied)
      next denied =>
        cases unreadable
        exact .read found denied
      next => cases unreadable
    next nothing =>
      cases unreadable
      apply FileTree.Refuses.missing
      unfold FileTree.isFile
      split
      next location contents found => exact absurd found (nothing location contents)
      next => rfl
  · intro refused
    cases refused with
    | missing absent =>
      have nothing (location : Location) (contents : Bytes) :
          tree.find? path ≠ some (location, .file contents) := by
        intro found
        rw [FileTree.isFile, found] at absent
        cases absent
      split
      next location contents found => exact absurd found (nothing location contents)
      next => rfl
    | access found denied =>
      rw [found]
      dsimp only
      rcases denied with denied | denied <;> rw [denied]
    | read found denied =>
      rw [found]
      dsimp only
      rw [denied]

/-- The canonical path of a path that leads to a file is that of the location of the file. -/
theorem canonical_of_find?_tidy {path : Text} {location : Location} {contents : Bytes}
    (found : tree.find? (Path.tidy path) = some (location, .file contents)) :
    tree.canonical path = .ok (FileTree.locationText location) := by
  unfold FileTree.find? at found
  split at found
  · cases found
  · -- tidying leaves the names that mean anything, and only they matter
    obtain ⟨links, leads⟩ := FileTree.leads_of_follow found
    rw [← FileTree.leads_filter_iff, Path.meaningful_names_tidy, FileTree.leads_filter_iff] at leads
    simp only [Path.head?_tidy] at leads
    exact FileTree.canonical_of_leads leads

theorem find?_tidy_locationText {location : Location} {contents : Bytes}
    (present : tree.lookup location = some (.file contents)) :
    tree.find? (Path.tidy (FileTree.locationText location)) = some (location, .file contents) := by
  have tidied : Path.tidy (FileTree.locationText location) = FileTree.locationText location :=
    FileTree.tidy_of_isName (Or.inl rfl) (FileTree.isName_of_lookup present)
  rw [tidied]
  exact FileTree.find?_locationText present

/-- A header that can be read has a canonical path, and is read by it as well. -/
theorem readHeader_canonical {path text : Text} (readable : readHeader tree path = .ok text) :
    ∃ canonical, tree.canonical path = .ok canonical ∧ tree.HasFile canonical ∧
      readHeader tree canonical = .ok text := by
  obtain ⟨location, contents, found, allowed, decoded⟩ := readHeader_eq_ok_iff.mp readable
  have present := FileTree.lookup_of_find? found
  exact ⟨FileTree.locationText location, canonical_of_find?_tidy found,
    FileTree.hasFile_of_find? found, readHeader_eq_ok_iff.mpr
      ⟨location, contents, find?_tidy_locationText present, allowed, decoded⟩⟩

end CHeader
