import CHeader.Proofs.Resolver.Graph
import CHeader.Proofs.Resolver.Persistence

/-!
# What is recalled

Of a file that is met, what is remembered is recalled, or else what would be discovered. A question
leaves that as it is if the header it asks for has the list of the header under whose key the list is
kept. The roots of a graph are remembered under their keys, so that a root that is listed again stays
as it is. What is listed is then fixed before the graph is closed.
-/
namespace CHeader.Resolver

open Text

variable {tree : FileTree} {r : Resolver} {headers searchPaths : List Text} {s after : Session}
  {roots graph : Graph} {header node root : Text}

/-! ## What is said of a header that is met -/

/-- What is remembered about a header, or else what is discovered; nothing if it cannot be read. -/
def recalled (r : Resolver) (tree : FileTree) (searchPaths : List Text) (cache : Cache)
    (node : Text) : List Text :=
  match cache.get? (node, searchPaths) with
  | some known => known
  | none =>
    match (r.scope tree searchPaths).discover node with
    | .ok d => d.found
    | .error _ => []

/-- The list of the header is that of the header under whose canonical path it is kept. -/
def KeepsOwn (r : Resolver) (tree : FileTree) (searchPaths : List Text) (header : Text) : Prop :=
  ∀ path key, tree.Keyed header path key →
    r.answer tree searchPaths header = r.answer tree searchPaths key

theorem keepsOwn_of_canonical (r : Resolver) (searchPaths : List Text)
    (own : tree.canonical header = .ok header) : r.KeepsOwn tree searchPaths header := by
  intro path key keyed
  rw [keyed.key_unique ⟨own, own⟩]

theorem recalled_dependencies (keeps : r.KeepsOwn tree searchPaths header)
    (file : tree.HasFile node) :
    r.recalled tree searchPaths (r.dependencies tree header searchPaths s).2.cache node =
      r.recalled tree searchPaths s.cache node := by
  by_cases keyed : ∃ path key, tree.Keyed header path key
  · obtain ⟨path, key, keyed⟩ := keyed
    cases known : s.cache.get? (key, searchPaths) with
    | some found =>
      rw [dependencies_hit keyed known]
      rfl
    | none =>
      rw [dependencies_miss keyed known]
      cases discovered : (r.scope tree searchPaths).discover path with
      | error cause => rfl
      | ok d =>
        unfold recalled
        dsimp only
        by_cases same : key = node
        · -- what is kept under the key of a file is what the file lists
          subst same
          have answers := keeps path key keyed
          rw [r.answer_of_keyed searchPaths keyed, discovered,
            r.answer_of_keyed searchPaths file.keyed] at answers
          rw [known, Table.get?_set_self]
          cases own : (r.scope tree searchPaths).discover key with
          | error cause =>
            rw [own] at answers
            cases answers
          | ok e =>
            rw [own] at answers
            exact Except.ok.inj answers
        · rw [Table.get?_set_of_ne (by simpa using same)]
  · obtain ⟨cause, failed⟩ := r.dependencies_astray searchPaths keyed
    rw [failed]

/-- What is recalled of a file is what the list says. -/
def Recalls (r : Resolver) (tree : FileTree) (searchPaths : List Text) (list : Text → List Text)
    (s : Session) : Prop :=
  ∀ node, tree.HasFile node → r.recalled tree searchPaths s.cache node = list node

theorem Recalls.dependencies {list : Text → List Text}
    (recalls : r.Recalls tree searchPaths list s) (keeps : r.KeepsOwn tree searchPaths header) :
    r.Recalls tree searchPaths list (r.dependencies tree header searchPaths s).2 :=
  fun node file => (recalled_dependencies keeps file).trans (recalls node file)

/-- Roots and files that are met give what is listed, and that does not change. -/
theorem Recalls.metDependencies {list : Text → List Text}
    (recalls : r.Recalls tree searchPaths list s)
    (known : ∀ root found, (root, found) ∈ roots → list root = found)
    (place : node ∈ Table.keys roots ∨ tree.HasFile node) :
    (r.metDependencies tree searchPaths roots node s).1 = .ok (list node) ∧
      r.Recalls tree searchPaths list (r.metDependencies tree searchPaths roots node s).2 := by
  unfold Resolver.metDependencies
  cases listed : roots.get? node with
  | some found =>
    rw [known node found (Table.mem_of_get? listed)]
    exact ⟨rfl, recalls⟩
  | none =>
    -- a file keeps its own list, so that asking for it leaves what is recalled
    have file := place.resolve_left (Table.get?_eq_none_iff.mp listed)
    have kept := recalls.dependencies (r.keepsOwn_of_canonical searchPaths file.keyed.1)
    have here := recalls node file
    unfold recalled at here
    cases remembered : s.cache.get? (node, searchPaths) with
    | some found =>
      rw [remembered] at here
      rw [dependencies_hit file.keyed remembered] at kept ⊢
      exact ⟨congrArg Except.ok here, kept⟩
    | none =>
      rw [remembered] at here
      rw [dependencies_miss file.keyed remembered] at kept ⊢
      cases discovered : (r.scope tree searchPaths).discover node with
      | error cause =>
        rw [discovered] at here kept
        exact ⟨congrArg Except.ok here, kept⟩
      | ok d =>
        rw [discovered] at here kept
        exact ⟨congrArg Except.ok here, kept⟩

/-! ## The roots are remembered -/

/-- What is remembered are lists of files, with each file once. -/
def ListsFiles (tree : FileTree) (cache : Cache) : Prop :=
  ∀ key found, (key, found) ∈ cache → found.Nodup ∧ ∀ target ∈ found, tree.HasFile target

theorem Grows.listsFiles {before cache : Cache} (grows : r.Grows tree before cache)
    (files : ListsFiles tree before) : ListsFiles tree cache := by
  induction grows with
  | refl => exact files
  | enter _ _ _ discovered ih =>
    intro key found entry
    rcases List.mem_append.mp entry with old | new
    · exact ih key found old
    · cases List.mem_singleton.mp new
      exact Scope.found_hasFile discovered

theorem listsFiles_nil (tree : FileTree) : ListsFiles tree [] := by
  intro key found entry
  cases entry

theorem Grows.files {cache : Cache} (grows : r.Grows tree [] cache) (key : CacheKey)
    (found : List Text) (known : cache.get? key = some found) :
    found.Nodup ∧ ∀ target ∈ found, tree.HasFile target :=
  grows.listsFiles (listsFiles_nil tree) key found (Table.mem_of_get? known)

/-- The lists of the roots are remembered. -/
def Rooted (tree : FileTree) (searchPaths : List Text) (roots : Graph) (s : Session) : Prop :=
  ∀ root found, (root, found) ∈ roots →
    ∃ path key, tree.Keyed root path key ∧ s.cache.get? (key, searchPaths) = some found

theorem rooted_nil (tree : FileTree) (searchPaths : List Text) (s : Session) :
    Rooted tree searchPaths [] s := by
  intro root found member
  cases member

theorem Rooted.later (rooted : Rooted tree searchPaths roots s) (kept : s.cache <+: after.cache) :
    Rooted tree searchPaths roots after := by
  intro root found member
  obtain ⟨path, key, keyed, known⟩ := rooted root found member
  obtain ⟨added, whole⟩ := kept
  exact ⟨path, key, keyed, whole ▸ Table.get?_append_of_eq_some known added⟩

/-- A root has one list. -/
theorem Rooted.get? {found : List Text} (rooted : Rooted tree searchPaths roots s)
    (member : (root, found) ∈ roots) : roots.get? root = some found := by
  cases known : roots.get? root with
  | none => exact absurd (List.mem_map_of_mem member) (Table.get?_eq_none_iff.mp known)
  | some other =>
    obtain ⟨path, key, keyed, here⟩ := rooted root found member
    obtain ⟨place, again, keyedAgain, there⟩ := rooted root other (Table.mem_of_get? known)
    rw [keyed.key_unique keyedAgain, there] at here
    exact here

theorem Rooted.set {found : List Text} (rooted : Rooted tree searchPaths roots s)
    {path key : Text} (keyed : tree.Keyed root path key)
    (known : s.cache.get? (key, searchPaths) = some found) :
    Rooted tree searchPaths (roots.set root found) s ∧ roots <+: roots.set root found := by
  cases listed : roots.get? root with
  | some other =>
    -- a root that is listed again is answered from the memory, and stays as it was
    obtain ⟨place, again, keyedAgain, there⟩ := rooted root other (Table.mem_of_get? listed)
    rw [keyedAgain.key_unique keyed, known, Option.some.injEq] at there
    rw [there, Table.set_of_get?_eq_some listed]
    exact ⟨rooted, List.prefix_refl _⟩
  | none =>
    rw [Table.set_of_not_mem (Table.get?_eq_none_iff.mp listed)]
    refine ⟨fun other list member => ?_, List.prefix_append _ _⟩
    rcases List.mem_append.mp member with old | new
    · exact rooted other list old
    · cases List.mem_singleton.mp new
      exact ⟨path, key, keyed, known⟩

theorem rootGraph_rooted (rooted : Rooted tree searchPaths roots s)
    (built : r.rootGraph tree searchPaths headers roots s = (.ok graph, after)) :
    Rooted tree searchPaths graph after ∧ roots <+: graph ∧
      ∀ header ∈ headers, ∃ root ∈ Table.keys graph, tree.canonical header = .ok root := by
  induction headers generalizing roots s with
  | nil =>
    cases built
    exact ⟨rooted, List.prefix_refl _, by simp⟩
  | cons header rest ih =>
    rw [rootGraph] at built
    split at built
    · cases built
    next root canonical =>
      have grows := r.dependencies_grows tree root searchPaths s
      rcases asking : r.dependencies tree root searchPaths s with ⟨cause | found, between⟩
      · rw [asking] at built
        cases built
      · have answered : (r.dependencies tree root searchPaths s).1 = .ok found :=
          congrArg Prod.fst asking
        obtain ⟨path, key, keyed, known, -⟩ := dependencies_eq_ok answered
        rw [asking] at built grows known
        -- the memory only grows, so the roots before are still remembered
        obtain ⟨entered, kept⟩ := (rooted.later grows.isPrefix).set keyed known
        obtain ⟨rootedLater, onward, members⟩ := ih entered built
        have here : root ∈ Table.keys graph :=
          (onward.map Prod.fst).subset (Table.mem_keys_set.mpr (Or.inl rfl))
        exact ⟨rootedLater, kept.trans onward,
          List.forall_mem_cons.mpr ⟨⟨root, here, canonical⟩, members⟩⟩

theorem rootGraph_recalled
    (keeps : ∀ header ∈ headers, ∀ root, tree.canonical header = .ok root →
      r.KeepsOwn tree searchPaths root) (graph : Graph) (s : Session) (file : tree.HasFile node) :
    r.recalled tree searchPaths (r.rootGraph tree searchPaths headers graph s).2.cache node =
      r.recalled tree searchPaths s.cache node := by
  induction headers generalizing graph s with
  | nil => rfl
  | cons header rest ih =>
    obtain ⟨here, others⟩ := List.forall_mem_cons.mp keeps
    rw [rootGraph]
    cases canonical : tree.canonical header with
    | error cause => rfl
    | ok root =>
      have same := recalled_dependencies (s := s) (here root canonical) file
      dsimp only
      rcases asking : r.dependencies tree root searchPaths s with ⟨cause | found, later⟩
      · rw [asking] at same
        exact same
      · rw [asking] at same
        exact (ih others _ later).trans same

/-! ## What the graph lists -/

/-- The list of a root, or else what is recalled. -/
def listed (r : Resolver) (tree : FileTree) (searchPaths : List Text) (roots : Graph)
    (cache : Cache) (node : Text) : List Text :=
  match roots.get? node with
  | some known => known
  | none => r.recalled tree searchPaths cache node

/-- A root that is a file is remembered under its own path. -/
theorem Rooted.recalls_listed (r : Resolver) (rooted : Rooted tree searchPaths roots s) :
    r.Recalls tree searchPaths (r.listed tree searchPaths roots s.cache) s := by
  intro node file
  unfold listed
  cases listed : roots.get? node with
  | none => rfl
  | some found =>
    obtain ⟨path, key, keyed, known⟩ := rooted node found (Table.mem_of_get? listed)
    rw [(file.keyed_eq keyed).2] at known
    unfold recalled
    rw [known]

theorem Rooted.listed_eq {found : List Text} (r : Resolver) (cache : Cache)
    (rooted : Rooted tree searchPaths roots s) (member : (root, found) ∈ roots) :
    r.listed tree searchPaths roots cache root = found := by
  unfold listed
  rw [rooted.get? member]

theorem listed_hasFile (grows : r.Grows tree [] s.cache)
    (rooted : Rooted tree searchPaths roots s) (node : Text) :
    (r.listed tree searchPaths roots s.cache node).Nodup ∧
      ∀ target ∈ r.listed tree searchPaths roots s.cache node, tree.HasFile target := by
  unfold listed
  split
  next known present =>
    obtain ⟨path, key, -, kept⟩ := rooted node known (Table.mem_of_get? present)
    exact grows.files _ _ kept
  next =>
    unfold recalled
    split
    next known present => exact grows.files _ _ present
    next =>
      split
      next d discovered => exact Scope.found_hasFile discovered
      next => exact ⟨List.nodup_nil, fun target member => absurd member List.not_mem_nil⟩

end CHeader.Resolver
