import CHeader.Proofs.File.Canonical

/-!
# Writing a file under a path

A file that is written under a path comes to stand in a directory, in place of no entry or of another
file. Nothing else is found anywhere after that: the same path leads to the new file, and the
directory of the path has the canonical path that it had.
-/
namespace CHeader.FileTree

open Text

variable {tree : FileTree} {location directory start : Location} {name path : Text} {links : Nat}
variable {names : List Text} {contents : Bytes}

/-! ## Locations in directories -/

/-- A location of names below directories, in which an entry can stand. -/
structure Reachable (tree : FileTree) (location : Location) : Prop where
  named : ∀ name ∈ location, isName name = true
  below : ∀ depth < location.length, tree.isDirectory (location.take depth) = true

theorem reachable_iff : tree.Reachable location ↔ (location.all isName &&
    (List.range location.length).all fun depth => tree.isDirectory (location.take depth)) = true := by
  simp only [Bool.and_eq_true, List.all_eq_true, List.mem_range]
  exact ⟨fun reachable => ⟨reachable.named, reachable.below⟩, fun both => ⟨both.1, both.2⟩⟩

theorem Reachable.lookup_eq (reachable : tree.Reachable location) :
    tree.lookup location =
      if location.isEmpty then some .directory else tree.entries.get? location := by
  rw [lookup, if_pos (reachable_iff.mp reachable)]

theorem reachable_of_lookup {entry : Entry} (present : tree.lookup location = some entry) :
    tree.Reachable location := by
  unfold lookup at present
  split at present
  next entered => exact reachable_iff.mpr entered
  next => cases present

theorem isDirectory_of_lookup (inside : tree.lookup directory = some .directory) :
    tree.isDirectory directory = true := by
  rw [(reachable_of_lookup inside).lookup_eq] at inside
  unfold isDirectory
  split at inside
  next root => simp [root]
  next => simp [inside]

theorem reachable_append (inside : tree.lookup directory = some .directory)
    (named : isName name = true) : tree.Reachable (directory ++ [name]) := by
  have above := reachable_of_lookup inside
  refine ⟨fun other member => ?_, fun depth bound => ?_⟩
  · rcases List.mem_append.mp member with front | last
    · exact above.named other front
    · exact List.mem_singleton.mp last ▸ named
  · rw [List.length_append, List.length_singleton] at bound
    rw [List.take_append_of_le_length (by omega)]
    rcases Nat.lt_or_eq_of_le (Nat.le_of_lt_succ bound) with inner | rfl
    · exact above.below depth inner
    · rw [List.take_length]
      exact isDirectory_of_lookup inside

/-- What has an entry is in a directory. -/
theorem lookup_directory {entry : Entry} (present : tree.lookup (directory ++ [name]) = some entry) :
    tree.lookup directory = some .directory := by
  have reachable := reachable_of_lookup present
  have below (depth : Nat) (bound : depth ≤ directory.length) :
      tree.isDirectory (directory.take depth) = true := by
    rw [← List.take_append_of_le_length bound]
    exact reachable.below depth (by rw [List.length_append, List.length_singleton]; omega)
  have above : tree.Reachable directory :=
    ⟨fun other member => reachable.named other (List.mem_append_left _ member),
      fun depth bound => below depth (Nat.le_of_lt bound)⟩
  have whole := below directory.length (Nat.le_refl _)
  rw [List.take_length, isDirectory, Bool.or_eq_true, beq_iff_eq] at whole
  rw [above.lookup_eq]
  split
  next => rfl
  next inner => exact whole.resolve_left inner

/-- A file can come to stand at a location: in a directory, where at most a file stands. -/
structure Vacant (tree : FileTree) (location : Location) : Prop where
  inside : ∃ directory name, location = directory ++ [name] ∧ isName name = true ∧
    tree.lookup directory = some .directory
  free : ∀ entry, tree.lookup location = some entry → ∃ contents, entry = .file contents

theorem Vacant.reachable (vacant : tree.Vacant location) : tree.Reachable location := by
  obtain ⟨directory, name, rfl, named, inside⟩ := vacant.inside
  exact reachable_append inside named

theorem Vacant.ne_nil (vacant : tree.Vacant location) : location ≠ [] := by
  obtain ⟨directory, name, rfl, -⟩ := vacant.inside
  simp

theorem Vacant.lookup_eq (vacant : tree.Vacant location) :
    tree.lookup location = tree.entries.get? location := by
  rw [vacant.reachable.lookup_eq, if_neg (by simp [vacant.ne_nil])]

/-! ## The tree with the file in it -/

/-- All directories above the location are there. -/
theorem Vacant.makeParents (vacant : tree.Vacant location) : tree.makeParents location = tree := by
  have known : ∀ depth ∈ List.range location.length,
      depth = 0 ∨ (tree.entries.get? (location.take depth)).isSome := by
    intro depth member
    have above := List.mem_range.mp member
    have entered := vacant.reachable.below depth above
    simp only [isDirectory, Bool.or_eq_true, List.isEmpty_iff, List.take_eq_nil_iff,
      beq_iff_eq] at entered
    rcases entered with (root | empty) | present
    · exact Or.inl root
    · simp [empty] at above
    · exact Or.inr (by rw [present]; rfl)
  unfold FileTree.makeParents
  congr 1
  refine List.foldlRecOn (List.range location.length) _ (motive := (· = tree.entries)) rfl ?_
  rintro _ rfl depth member
  rw [if_pos (known depth member)]

theorem Vacant.put (vacant : tree.Vacant location) (entry : Entry) :
    tree.put location entry = { tree with entries := tree.entries.set location entry } := by
  rw [FileTree.put, vacant.makeParents]

theorem Vacant.isDirectory_put (vacant : tree.Vacant location) (contents : Bytes)
    (other : Location) :
    (tree.put location (.file contents)).isDirectory other = tree.isDirectory other := by
  rw [vacant.put]
  simp only [isDirectory, Table.get?_set]
  split
  next same =>
    subst same
    -- a file is no directory, and neither was what stood there before
    have noDirectory : tree.entries.get? location ≠ some .directory := by
      intro present
      rw [← vacant.lookup_eq] at present
      obtain ⟨contents, differ⟩ := vacant.free _ present
      cases differ
    rw [beq_eq_false_iff_ne.mpr noDirectory]
    rfl
  next => rfl

/-- Only what is found at the location has changed. -/
theorem Vacant.lookup_put (vacant : tree.Vacant location) (contents : Bytes) (other : Location) :
    (tree.put location (.file contents)).lookup other =
      if location = other then some (.file contents) else tree.lookup other := by
  unfold lookup
  simp only [vacant.isDirectory_put]
  rw [vacant.put]
  by_cases same : location = other
  · subst same
    rw [if_pos (reachable_iff.mp vacant.reachable), if_pos rfl, if_neg (by simp [vacant.ne_nil])]
    exact Table.get?_set_self _ _ _
  · rw [Table.get?_set_of_ne same, if_neg same]

/-- The location still is one for a file, and writing the same again changes nothing. -/
theorem Vacant.again (vacant : tree.Vacant location) (contents : Bytes) :
    (tree.put location (.file contents)).Vacant location := by
  refine ⟨?_, fun entry present => ?_⟩
  · obtain ⟨directory, name, rfl, named, inside⟩ := vacant.inside
    refine ⟨directory, name, rfl, named, ?_⟩
    rw [vacant.lookup_put, if_neg (by simp)]
    exact inside
  · rw [vacant.lookup_put, if_pos rfl] at present
    exact ⟨contents, (Option.some.inj present).symm⟩

theorem Vacant.put_put (vacant : tree.Vacant location) (contents : Bytes) :
    (tree.put location (.file contents)).put location (.file contents) =
      tree.put location (.file contents) := by
  rw [(vacant.again contents).put, vacant.put]
  simp only
  rw [Table.set_of_get?_eq_some (Table.get?_set_self location _ _)]

/-! ## Where files are written -/

theorem vacant_of_place (placed : tree.place links start names = .ok location) :
    tree.Vacant location := by
  fun_induction place tree links start names with
  | case1 => cases placed
  | case2 _ _ _ _ _ ih => exact ih placed
  | case3 _ _ _ _ ih => exact ih placed
  | case4 links start name rest meaningful down missing last =>
    cases placed
    obtain ⟨-, inside, named⟩ := last
    exact ⟨⟨start, name, rfl, named, inside⟩, by simp [missing]⟩
  | case5 => cases placed
  | case6 _ _ _ _ _ _ _ ih => exact ih placed
  | case7 links start name meaningful down contents present => 
    cases placed
    have named := isName_of_lookup present name (by simp)
    refine ⟨⟨start, name, rfl, named, lookup_directory present⟩, fun entry found => ?_⟩
    rw [present] at found
    exact ⟨contents, (Option.some.inj found).symm⟩
  | case8 => cases placed
  | case9 => cases placed
  | case10 _ _ _ _ _ _ _ _ ih => exact ih placed

/-- A directory or a link that is met on the way is not where the file comes to stand. -/
theorem Vacant.ne_of_lookup (vacant : tree.Vacant location) {other : Location} {entry : Entry}
    (present : tree.lookup other = some entry) (noFile : ∀ contents, entry ≠ .file contents) :
    location ≠ other := by
  rintro rfl
  obtain ⟨contents, same⟩ := vacant.free entry present
  exact noFile contents same

/-- The names lead to the file that was written under them. -/
theorem follow_put (placed : tree.place links start names = .ok location) (contents : Bytes) :
    (tree.put location (.file contents)).follow links start names =
      some (location, .file contents) := by
  have vacant := vacant_of_place placed
  fun_induction place tree links start names with
  | case1 => cases placed
  | case2 links start name rest meaningless ih =>
    rw [follow, if_pos meaningless]
    exact ih placed
  | case3 links start rest meaningful ih =>
    rw [follow, if_neg meaningful, if_pos rfl]
    exact ih placed
  | case4 links start name rest meaningful down missing last =>
    -- the name was missing and is the new file
    cases placed
    rw [follow, if_neg meaningful, if_neg down]
    simp only [vacant.lookup_put, ↓reduceIte, last.1]
  | case5 => cases placed
  | case6 links start name rest meaningful down present ih =>
    rw [follow, if_neg meaningful, if_neg down]
    have differ := vacant.ne_of_lookup present (by simp)
    simp only [vacant.lookup_put, differ, ↓reduceIte, present]
    exact ih placed
  | case7 links start name meaningful down contents present =>
    cases placed
    rw [follow, if_neg meaningful, if_neg down]
    simp only [vacant.lookup_put, ↓reduceIte]
  | case8 => cases placed
  | case9 => cases placed
  | case10 start name rest meaningful down target present links ih =>
    rw [follow, if_neg meaningful, if_neg down]
    have differ := vacant.ne_of_lookup present (by simp)
    simp only [vacant.lookup_put, differ, ↓reduceIte, present]
    exact ih placed

/-- Writing under names that lead to a file replaces that file. -/
theorem place_of_follow (found : tree.follow links start names = some (location, .file contents)) :
    tree.place links start names = .ok location := by
  fun_induction follow tree links start names with
  | case1 => cases found
  | case2 links start name rest meaningless ih =>
    rw [place, if_pos meaningless]
    exact ih found
  | case3 links start rest meaningful ih =>
    rw [place, if_neg meaningful, if_pos rfl]
    exact ih found
  | case4 => cases found
  | case5 links start name rest meaningful down present ih =>
    rw [place, if_neg meaningful, if_neg down]
    simp only [present]
    exact ih found
  | case6 links start name meaningful down contents present =>
    cases found
    rw [place, if_neg meaningful, if_neg down]
    simp only [present, ↓reduceIte]
  | case7 => cases found
  | case8 => cases found
  | case9 start name rest meaningful down target present links ih =>
    rw [place, if_neg meaningful, if_neg down]
    simp only [present]
    exact ih found

/-! ## The directory of the path -/

/-- Names lead to the same place after a file has been written. -/
theorem Vacant.leads_put (vacant : tree.Vacant location) (contents : Bytes) {goal : Location}
    (leads : tree.Leads links start names goal) :
    (tree.put location (.file contents)).Leads links start names goal := by
  induction leads with
  | done => exact .done
  | skip meaningless _ ih => exact .skip meaningless ih
  | up _ ih => exact .up ih
  | enter named plain _ ih =>
    refine .enter named (fun target linked => ?_) ih
    rw [vacant.lookup_put] at linked
    split at linked
    · -- it is the file that was written
      cases linked
    · exact plain target linked
  | link present _ _ ihThrough ihAfter =>
    have differ := vacant.ne_of_lookup present (by simp)
    exact .link (by rw [vacant.lookup_put, if_neg differ, present]) ihThrough ihAfter

theorem filter_meaningless {rest : List Text} (meaningless : name = [] ∨ name = ['.']) :
    (name :: rest).filter Path.isMeaningful = rest.filter Path.isMeaningful := by
  refine List.filter_cons_of_neg ?_
  simp only [Path.isMeaningful, decide_eq_true_eq]
  tauto

theorem filter_meaningful {rest : List Text} (meaningful : ¬(name = [] ∨ name = ['.'])) :
    (name :: rest).filter Path.isMeaningful = name :: rest.filter Path.isMeaningful := by
  refine List.filter_cons_of_pos ?_
  simpa [Path.isMeaningful] using meaningful

/-- A file is not written under a path without a name. -/
theorem names_of_place (placed : tree.place links start names = .ok location) :
    names.filter Path.isMeaningful ≠ [] := by
  induction names with
  | nil =>
    rw [place] at placed
    cases placed
  | cons name rest ih =>
    by_cases meaningless : name = [] ∨ name = ['.']
    · rw [place, if_pos meaningless] at placed
      rw [filter_meaningless meaningless]
      exact ih placed
    · rw [filter_meaningful meaningless]
      exact List.cons_ne_nil _ _

/-- What stands in front of the last name leads somewhere. -/
theorem leads_of_place (placed : tree.place links start names = .ok location) :
    ∃ count goal, tree.Leads count start (names.filter Path.isMeaningful).dropLast goal := by
  fun_induction place tree links start names with
  | case1 => cases placed
  | case2 links start name rest meaningless ih =>
    rw [filter_meaningless meaningless]
    exact ih placed
  | case3 links start rest meaningful ih =>
    rw [filter_meaningful meaningful, List.dropLast_cons_of_ne_nil (names_of_place placed)]
    obtain ⟨count, goal, leads⟩ := ih placed
    exact ⟨count, goal, .up leads⟩
  | case4 links start name rest meaningful down missing last =>
    rw [last.1, filter_meaningful meaningful]
    exact ⟨0, start, .done⟩
  | case5 => cases placed
  | case6 links start name rest meaningful down present ih =>
    rw [filter_meaningful meaningful, List.dropLast_cons_of_ne_nil (names_of_place placed)]
    obtain ⟨count, goal, leads⟩ := ih placed
    exact ⟨count, goal, .enter_present present (by simp) leads⟩
  | case7 links start name meaningful down contents present =>
    rw [filter_meaningful meaningful]
    exact ⟨0, start, .done⟩
  | case8 => cases placed
  | case9 => cases placed
  | case10 start name rest meaningful down target present links ih =>
    rw [filter_meaningful meaningful]
    by_cases last : rest.filter Path.isMeaningful = []
    · rw [last]
      exact ⟨0, start, .done⟩
    · -- the target is followed to its end, and then the names up to the last one
      obtain ⟨count, goal, leads⟩ := ih placed
      rw [List.filter_append, List.dropLast_append_of_ne_nil last] at leads
      obtain ⟨inner, outer, middle, through, after, -⟩ := leads.append
      rw [List.dropLast_cons_of_ne_nil last]
      exact ⟨_, goal, .link present (leads_filter_iff.mp through) after⟩

/-! ## Paths -/

theorem vacant_of_destination (placed : tree.destination path = .ok location) :
    tree.Vacant location :=
  vacant_of_place placed

theorem workingDirectory_put (location : Location) (entry : Entry) :
    (tree.put location entry).workingDirectory = tree.workingDirectory := rfl

/-- A file that was written under a path is found under it. -/
theorem find?_put (placed : tree.destination path = .ok location) (filled : path ≠ [])
    (spelled : '\x00' ∉ path) (contents : Bytes) :
    (tree.put location (.file contents)).find? path = some (location, .file contents) := by
  rw [find?, if_neg (not_or.mpr ⟨spelled, filled⟩), workingDirectory_put]
  exact follow_put placed contents

/-- A second file under the same path takes the place of the first. -/
theorem destination_put (placed : tree.destination path = .ok location) (contents : Bytes) :
    (tree.put location (.file contents)).destination path = .ok location := by
  rw [destination, workingDirectory_put]
  exact place_of_follow (follow_put placed contents)

/-- The directory of a path has a canonical path, before a file is written under the path and
after. -/
theorem canonical_parent (placed : tree.destination path = .ok location) (contents : Bytes) :
    ∃ root, tree.canonical (Path.ofText path).parent.toText = .ok root ∧
      (tree.put location (.file contents)).canonical (Path.ofText path).parent.toText =
        .ok root := by
  have proper := (Path.proper_ofText path).parent
  obtain ⟨count, goal, leads⟩ := leads_of_place placed
  -- the directory is spelled with all names but the last, and from the same start
  have names : (splitOn '/' (Path.ofText path).parent.toText).filter Path.isMeaningful =
      ((splitOn '/' path).filter Path.isMeaningful).dropLast :=
    congrArg Path.names proper.ofText_toText
  rw [← names, leads_filter_iff] at leads
  have absolute : (Path.ofText path).parent.toText.head? = some '/' ↔ path.head? = some '/' := by
    rw [proper.head?_toText, ← not_iff_not, not_not]
    exact Path.rootOf_eq_nil_iff path
  simp only [← absolute] at leads
  have after := (vacant_of_destination placed).leads_put contents leads
  rw [← workingDirectory_put location (.file contents)] at after
  exact ⟨locationText goal, canonical_of_leads leads, canonical_of_leads after⟩

end CHeader.FileTree
