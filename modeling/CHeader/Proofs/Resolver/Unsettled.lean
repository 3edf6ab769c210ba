import CHeader.Proofs.Resolver.Order

/-!
# Roots that are not settled

The list of a root is discovered at the canonical path of the root, and kept under the canonical path
of that. All three are the same for a settled root. The order of a single root that is not settled is
still that of a graph: the root lists what is included from where it leads, and so does the header
that has the key, if it is met.
-/
namespace CHeader.Resolver

open Text Relation

variable {tree : FileTree} {r : Resolver} {s : Session} {header root place key node : Text}
  {searchPaths found : List Text}

/-! ## The session -/

/-- The session lends the list of the root to the header that has the key, and is truthful about all
other files. -/
structure Lends (r : Resolver) (tree : FileTree) (searchPaths : List Text) (key : Text)
    (found : List Text) (s : Session) : Prop where
  kept : s.cache.get? (key, searchPaths) = some found
  truthful : r.Truthful tree (fun node => tree.HasFile node ∧ node ≠ key) s

theorem metDependencies_cache {roots : Graph} (unknown : roots.get? node = none) :
    (r.metDependencies tree searchPaths roots node s).2.cache =
      (r.dependencies tree node searchPaths s).2.cache := by
  unfold metDependencies
  rw [unknown]
  dsimp only
  split
  next asking => rw [asking]; rfl
  next => rfl

theorem Lends.metDependencies (lends : r.Lends tree searchPaths key found s)
    (inside : node = root ∨ tree.HasFile node) :
    (r.metDependencies tree searchPaths [(root, found)] node s).1 =
        .ok (r.listOf tree searchPaths [(root, found), (key, found)] node) ∧
      r.Lends tree searchPaths key found
        (r.metDependencies tree searchPaths [(root, found)] node s).2 := by
  -- the root is in the graph, the header with the key is remembered, and of the others the session
  -- is truthful
  by_cases same : node = root
  · subst same
    simp only [Resolver.metDependencies, listOf, Table.get?, ↓reduceIte]
    exact ⟨trivial, lends⟩
  · have file := inside.resolve_left same
    have unknown : Table.get? node [(root, found)] = none := by
      simp [Table.get?, Ne.symm same]
    by_cases shared : node = key
    · subst shared
      unfold Resolver.metDependencies listOf
      rw [unknown, dependencies_hit file.keyed lends.kept]
      simp only [Table.get?, Ne.symm same, ↓reduceIte]
      exact ⟨trivial, lends.kept, lends.truthful.note _⟩
    · have agree : r.KeysAgree tree fun node => tree.HasFile node ∧ node ≠ key :=
        (keysAgree_settled r tree).mono fun _ member => member.1.settled
      obtain ⟨answered, after⟩ := metDependencies_truthful searchPaths [(root, found)] agree
        lends.truthful (Or.inr ⟨file, file, shared⟩)
      refine ⟨?_, ?_, after⟩
      · rw [answered]
        simp [listOf, Table.get?, Ne.symm same, Ne.symm shared]
      · rw [metDependencies_cache unknown, dependencies_keeps file.keyed shared]
        exact lends.kept

theorem lent_ofFiles (key : Text) (answered : r.answer tree searchPaths root = .ok found) :
    OfFiles tree [(root, found), (key, found)] := by
  intro node listed member
  simp only [List.mem_cons, Prod.mk.injEq, List.not_mem_nil, or_false] at member
  rcases member with ⟨-, rfl⟩ | ⟨-, rfl⟩
  · exact answer_hasFile answered
  · exact answer_hasFile answered

theorem graph_single (canonical : tree.canonical header = .ok root)
    (keyed : tree.Keyed root place key) (answered : r.answer tree searchPaths root = .ok found) :
    (r.graph tree [header] searchPaths true .empty).1 =
      .ok (r.closedGraph tree searchPaths [(root, found), (key, found)] (root :: found)) := by
  have files := answer_hasFile answered
  have lists := lent_ofFiles key answered
  have unknown : Session.empty.cache.get? (key, searchPaths) = none := rfl
  have asking := dependencies_miss (r := r) keyed unknown
  rw [r.answer_of_keyed searchPaths keyed] at answered
  cases discovered : (r.scope tree searchPaths).discover place with
  | error cause =>
    rw [discovered] at answered
    cases answered
  | ok d =>
    rw [discovered] at answered asking
    cases answered
    dsimp only at asking
    have lends : r.Lends tree searchPaths key d.found
        ⟨Session.empty.cache.set (key, searchPaths) d.found, Session.empty.events ++ d.events⟩ := by
      refine ⟨Table.get?_set_self _ _ _, ?_⟩
      intro file path own paths known member fileKeyed present
      have same := (member.1.keyed_eq fileKeyed).2
      rw [Table.get?_set_of_ne fun shared => ?_] at present
      · cases present
      · cases shared
        exact member.2 same.symm
    simp only [graph, rootGraph, canonical, asking, ↓reduceIte, Table.set, List.flatMap_cons,
      List.flatMap_nil, List.append_nil]
    rw [← closure_eq_closedGraph lists]
    refine (closeGraph_closure
      (fun node s (inside : node = root ∨ tree.HasFile node) lends => lends.metDependencies inside)
      (fun node other member => Or.inr ((r.listOf_hasFile searchPaths lists node).2 other member))
      lends _ [] fun node member => ?_).1
    exact (List.mem_cons.mp member).imp_right (files.2 node)

/-! ## What the graph says -/

theorem listOf_lent (known : node = root ∨ node = key) :
    r.listOf tree searchPaths [(root, found), (key, found)] node = found := by
  unfold listOf
  by_cases same : node = root
  · simp [Table.get?, same]
  · simp [Table.get?, known.resolve_left same]

theorem listOf_other (apart : node ≠ root) (differ : node ≠ key) :
    r.listOf tree searchPaths [(root, found), (key, found)] node =
      r.listOf tree searchPaths [] node := by
  simp [listOf, Table.get?, Ne.symm apart, Ne.symm differ]

section

variable (keyed : tree.Keyed root place key) (answered : r.answer tree searchPaths root = .ok found)
include keyed answered

theorem transGen_of_listed {target : Text}
    (origin : node = root ∨ TransGen (r.scope tree searchPaths).Includes place node)
    (listed : target ∈ r.listOf tree searchPaths [(root, found), (key, found)] node) :
    TransGen (r.scope tree searchPaths).Includes place target := by
  by_cases known : node = root ∨ node = key
  · rw [listOf_lent known] at listed
    exact ((mem_answer_iff keyed.1 answered).2 target).mp listed
  · obtain ⟨apart, differ⟩ := not_or.mp known
    have reached := origin.resolve_left apart
    have own := FileTree.canonical_of_hasFile
      ((r.scope tree searchPaths).hasFile_of_transGen reached)
    rw [listOf_other apart differ] at listed
    exact reached.trans ((mem_listOf_iff answered_nil own target).mp listed)

/-- The header that has the key lists more than it includes if it is met. -/
theorem listed_of_transGen {target : Text}
    (reached : TransGen (r.scope tree searchPaths).Includes place node)
    (includes : TransGen (r.scope tree searchPaths).Includes node target) :
    target ∈ r.listOf tree searchPaths [(root, found), (key, found)] node := by
  by_cases known : node = root ∨ node = key
  · rw [listOf_lent known]
    exact ((mem_answer_iff keyed.1 answered).2 target).mpr (reached.trans includes)
  · obtain ⟨apart, differ⟩ := not_or.mp known
    have own := FileTree.canonical_of_hasFile
      ((r.scope tree searchPaths).hasFile_of_transGen reached)
    rw [listOf_other apart differ]
    exact (mem_listOf_iff answered_nil own target).mpr includes

theorem mem_keys_single :
    node ∈ Table.keys
        (r.closedGraph tree searchPaths [(root, found), (key, found)] (root :: found)) ↔
      node = root ∨ TransGen (r.scope tree searchPaths).Includes place node := by
  have reached := (mem_answer_iff keyed.1 answered).2
  rw [(r.closing_closedGraph searchPaths (lent_ofFiles key answered) (root :: found)).mem_keys_iff]
  constructor
  · rintro ⟨first, member, path⟩
    induction path with
    | refl => exact (List.mem_cons.mp member).imp_right (reached _).mp
    | tail _ listed ih => exact Or.inr (transGen_of_listed keyed answered ih listed)
  · rintro (rfl | below)
    · exact ⟨node, List.mem_cons_self, .refl⟩
    · exact ⟨node, List.mem_cons_of_mem root ((reached node).mpr below), .refl⟩

end

/-! ## The order -/

theorem answer_of_single {order : List Text} (canonical : tree.canonical header = .ok root)
    (done : (r.compilationOrder tree [header] searchPaths .empty).1 = .ok order) :
    ∃ found, r.answer tree searchPaths root = .ok found := by
  rcases asking : r.dependencies tree root searchPaths .empty with ⟨cause | found, later⟩
  · simp only [compilationOrder, graph, rootGraph, canonical, asking] at done
    cases done
  · exact ⟨found, by rw [answer, asking]⟩

theorem includeOrder_single {order : List Text} (canonical : tree.canonical header = .ok root)
    (keyed : tree.Keyed root place key)
    (done : (r.compilationOrder tree [header] searchPaths .empty).1 = .ok order) :
    (r.scope tree searchPaths).IncludeOrder [header] order ↔
      ∀ target, TransGen (r.scope tree searchPaths).Includes root target ↔
        TransGen (r.scope tree searchPaths).Includes place target := by
  obtain ⟨found, answered⟩ := answer_of_single canonical done
  have closed := r.closing_closedGraph searchPaths (lent_ofFiles key answered) (root :: found)
  have sorting : (r.closedGraph tree searchPaths [(root, found), (key, found)]
      (root :: found)).topologicalOrder = .ok order := by
    have whole := graph_single canonical keyed answered
    unfold compilationOrder at done
    rcases building : r.graph tree [header] searchPaths true .empty with ⟨result, later⟩
    rw [building] at done whole
    cases whole
    dsimp only at done
    split at done
    · cases done
    next same =>
      cases done
      exact same
  -- the order holds the root and what is included from the place
  obtain ⟨sorted, members⟩ := closed.sorted sorting
  have inside : ∀ node, node ∈ order ↔
      node = root ∨ TransGen (r.scope tree searchPaths).Includes place node :=
    fun node => (members node).trans (mem_keys_single keyed answered)
  constructor
  · intro ordered target
    have agree := ((r.scope tree searchPaths).reached_singleton canonical).symm.trans
      ((ordered.members target).symm.trans (inside target))
    by_cases file : tree.HasFile root
    · rw [(file.keyed_eq keyed).1]
    · -- what is included is a file, and so it is not the root
      have apart : ∀ first, TransGen (r.scope tree searchPaths).Includes first target →
          target ≠ root := by
        rintro first reached rfl
        exact file ((r.scope tree searchPaths).hasFile_of_transGen reached)
      constructor
      · exact fun reached => (agree.mp (Or.inr reached)).resolve_left (apart root reached)
      · exact fun reached => (agree.mpr (Or.inr reached)).resolve_left (apart place reached)
  · intro same
    refine ⟨sorted.distinct, fun target => ?_, fun node member target includes => ?_⟩
    · rw [inside, (r.scope tree searchPaths).reached_singleton canonical, same]
    · refine sorted.idxOf_lt member ((closed.dependsOn_iff ((members node).mp member)).mpr ?_)
      rcases (inside node).mp member with rfl | below
      · rw [listOf_lent (Or.inl rfl)]
        exact ((mem_answer_iff keyed.1 answered).2 target).mpr ((same target).mp (.single includes))
      · exact listed_of_transGen keyed answered below (.single includes)

theorem compilationOrder_includeOrder (r : Resolver) (tree : FileTree) (searchPaths : List Text) :
    (∀ headers order, (∀ header ∈ headers, tree.Settled header) →
      (r.compilationOrder tree headers searchPaths .empty).1 = .ok order →
      (r.scope tree searchPaths).IncludeOrder headers order) ∧
    (∀ header root place key order, tree.canonical header = .ok root → tree.Keyed root place key →
      (r.compilationOrder tree [header] searchPaths .empty).1 = .ok order →
      ((r.scope tree searchPaths).IncludeOrder [header] order ↔
        ∀ target, TransGen (r.scope tree searchPaths).Includes root target ↔
          TransGen (r.scope tree searchPaths).Includes place target)) :=
  ⟨fun _ _ settled done => includeOrder_of_settled settled done,
    fun _ _ _ _ _ canonical keyed done => includeOrder_single canonical keyed done⟩

theorem compilationOrder_includeOrder_looped :
    ((Resolver.mk []).scope FileTree.loopedTree []).IncludeOrder ["s/y.h".toList]
        ["/s/z.h".toList, "/s/y.h".toList] ∧
      (((Resolver.mk []).scope FileTree.loopedTree []).IncludeOrder ["l/../x.h".toList]
          ["/s/z.h".toList, "/x.h".toList] ↔
        ∀ target, TransGen ((Resolver.mk []).scope FileTree.loopedTree []).Includes
            "/x.h".toList target ↔
          TransGen ((Resolver.mk []).scope FileTree.loopedTree []).Includes
            "/s/y.h".toList target) := by
  obtain ⟨settled, single⟩ := compilationOrder_includeOrder ⟨[]⟩ FileTree.loopedTree []
  constructor
  · refine settled _ _ (fun header member => ?_) (by cbv)
    cases List.mem_singleton.mp member
    have readable : readHeader FileTree.loopedTree "s/y.h".toList =
        .ok "#include \"z.h\"\n".toList := by cbv
    exact FileTree.settled_of_readable readable
  · exact single _ _ _ "/s/y.h".toList _ (by cbv) ⟨by cbv, by cbv⟩ (by cbv)

theorem compilationOrder_looped :
    ∃ order, ((Resolver.mk []).compilationOrder FileTree.loopedTree ["l/../x.h".toList] []
        .empty).1 = .ok order ∧
      ¬((Resolver.mk []).scope FileTree.loopedTree []).IncludeOrder ["l/../x.h".toList] order := by
  refine ⟨["/s/z.h".toList, "/x.h".toList], by cbv, fun ordered => ?_⟩
  have own : FileTree.loopedTree.canonical "l/../x.h".toList = .ok "/x.h".toList := by cbv
  have reached := (ordered.members "/s/z.h".toList).mp (by simp)
  rcases (Scope.reached_singleton _ own).mp reached with same | included
  · cases same
  · -- beside the link there is no header with the name
    obtain ⟨next, includes, -⟩ := TransGen.head'_iff.mp included
    have named : Include.extract "#include \"z.h\"\n".toList = ["z.h".toList] := by cbv
    have readable : readHeader FileTree.loopedTree "/x.h".toList =
        .ok "#include \"z.h\"\n".toList := by cbv
    refine Scope.not_includes_of_missing readable (fun name member => ?_) next includes
    rw [named] at member
    cases List.mem_singleton.mp member
    cbv

end CHeader.Resolver
