import CHeader.Proofs.Graph.Sort
import CHeader.Proofs.Resolver.Dependencies
import CHeader.Proofs.Resolver.Graph

/-!
# The compilation order

Every node of the closed graph lists what it includes transitively, so the order of the graph is an
order of the includes, and a cycle that the sort meets in the lists is a cycle of includes. All this
rests on the roots having canonical paths that are their own canonical paths: the lists of the others
are those of the headers to which their canonical paths lead.
-/
namespace CHeader.Resolver

open Text Relation

variable {tree : FileTree} {r : Resolver} {headers searchPaths : List Text} {roots : Graph}

/-! ## What the closed graph says -/

theorem mem_listOf_iff (answered : r.Answered tree searchPaths roots) {node : Text}
    (own : tree.canonical node = .ok node) (target : Text) :
    target ∈ r.listOf tree searchPaths roots node ↔
      TransGen (r.scope tree searchPaths).Includes node target := by
  rcases listOf_cases answered node with known | ⟨⟨cause, failed⟩, nothing⟩
  · exact (mem_answer_iff own known).2 target
  · -- a header without an answer cannot be read, and includes nothing
    rw [nothing]
    refine ⟨fun member => absurd member List.not_mem_nil, fun reached => ?_⟩
    obtain ⟨next, ⟨text, readable, -⟩, -⟩ := TransGen.head'_iff.mp reached
    obtain ⟨found, known⟩ := r.answer_of_readable searchPaths ⟨own, own⟩ readable
    rw [failed] at known
    cases known

theorem reflTransGen_listOf_iff (answered : r.Answered tree searchPaths roots) {first node : Text}
    (own : tree.canonical first = .ok first) :
    ReflTransGen (fun upper lower => lower ∈ r.listOf tree searchPaths roots upper) first node ↔
      ReflTransGen (r.scope tree searchPaths).Includes first node := by
  constructor
  · intro path
    induction path with
    | refl => exact .refl
    | tail _ listed ih =>
      -- what was reached so far has its own path for its canonical path
      have here := (r.scope tree searchPaths).canonical_of_reflTransGen own ih
      exact ih.trans ((mem_listOf_iff answered here _).mp listed).to_reflTransGen
  · intro path
    induction path with
    | refl => exact .refl
    | tail before includes ih =>
      have here := (r.scope tree searchPaths).canonical_of_reflTransGen own before
      exact ih.tail ((mem_listOf_iff answered here _).mpr (.single includes))

/-- The graph says which headers are reached from the roots, and what each of them includes
transitively. -/
structure Reading (scope : Scope) (headers : List Text) (graph : Graph) : Prop where
  keys : ∀ node, node ∈ Table.keys graph ↔ scope.Reached headers node
  lists : ∀ node ∈ Table.keys graph, ∀ target,
    graph.DependsOn node target ↔ TransGen scope.Includes node target

theorem closing_of_rootLists (listed : r.rootLists tree searchPaths headers [] = .ok roots) :
    Graph.Closing (r.listOf tree searchPaths roots) roots.nodes []
      (r.closedGraph tree searchPaths roots roots.nodes) :=
  r.closing_closedGraph searchPaths (rootLists_ok listed answered_nil).1.ofFiles roots.nodes

theorem reading_closedGraph (settled : ∀ header ∈ headers, tree.Settled header)
    (listed : r.rootLists tree searchPaths headers [] = .ok roots) :
    Reading (r.scope tree searchPaths) headers
      (r.closedGraph tree searchPaths roots roots.nodes) := by
  obtain ⟨answered, rootKeys⟩ := rootLists_ok listed answered_nil
  have closed := closing_of_rootLists listed
  have origin : ∀ root ∈ Table.keys roots, ∃ header ∈ headers, tree.canonical header = .ok root :=
    fun root key => ((rootKeys root).mp key).resolve_left (by simp)
  have own : ∀ root ∈ Table.keys roots, tree.canonical root = .ok root := by
    intro root key
    obtain ⟨header, member, canonical⟩ := origin root key
    exact settled header member root canonical
  have keys : ∀ node, node ∈ Table.keys (r.closedGraph tree searchPaths roots roots.nodes) ↔
      (r.scope tree searchPaths).Reached headers node := by
    intro node
    rw [closed.mem_keys_iff]
    constructor
    · rintro ⟨first, member, path⟩
      obtain ⟨⟨root, found⟩, entry, place⟩ := List.mem_flatMap.mp member
      have key : root ∈ Table.keys roots := List.mem_map_of_mem entry
      have here := own root key
      obtain ⟨header, asked, canonical⟩ := origin root key
      refine ⟨header, asked, root, canonical, ?_⟩
      -- the walk starts at a root or at a header that a root lists
      rcases List.mem_cons.mp place with rfl | below
      · exact (reflTransGen_listOf_iff answered here).mp path
      · have includes := ((mem_answer_iff here (answered root found entry)).2 first).mp below
        have onward := (r.scope tree searchPaths).canonical_of_reflTransGen here
          includes.to_reflTransGen
        exact includes.to_reflTransGen.trans ((reflTransGen_listOf_iff answered onward).mp path)
    · rintro ⟨header, asked, root, canonical, path⟩
      have key : root ∈ Table.keys roots := (rootKeys root).mpr (Or.inr ⟨header, asked, canonical⟩)
      exact ⟨root, Graph.mem_nodes_of_mem_keys key,
        (reflTransGen_listOf_iff answered (own root key)).mpr path⟩
  refine ⟨keys, fun node member target => ?_⟩
  obtain ⟨header, asked, root, canonical, path⟩ := (keys node).mp member
  rw [closed.dependsOn_iff member]
  exact mem_listOf_iff answered ((r.scope tree searchPaths).canonical_of_reflTransGen
    (settled header asked root canonical) path) target

/-! ## Settled roots -/

theorem compilationOrder_settled (settled : ∀ header ∈ headers, tree.Settled header) :
    (r.compilationOrder tree headers searchPaths .empty).1 = r.orderOf tree headers searchPaths :=
  (compilationOrder_truthful searchPaths (keysAgree_settled r tree) (fun _ file => file.settled)
    truthful_empty fun header member _ canonical => (settled header member).canonical canonical).1

theorem graph_settled (settled : ∀ header ∈ headers, tree.Settled header) (closed : Bool) :
    (r.graph tree headers searchPaths closed .empty).1 =
      r.graphOf tree headers searchPaths closed :=
  (graph_truthful searchPaths (keysAgree_settled r tree) (fun _ file => file.settled)
    truthful_empty (fun header member _ canonical => (settled header member).canonical canonical)
    closed).1

theorem includeOrder_of_settled {order : List Text}
    (settled : ∀ header ∈ headers, tree.Settled header)
    (done : (r.compilationOrder tree headers searchPaths .empty).1 = .ok order) :
    (r.scope tree searchPaths).IncludeOrder headers order := by
  rw [compilationOrder_settled settled, orderOf, graphOf] at done
  cases listed : r.rootLists tree searchPaths headers [] with
  | error cause =>
    rw [listed] at done
    cases done
  | ok roots =>
    have reading := reading_closedGraph settled listed
    have closed := closing_of_rootLists listed
    rw [listed] at done
    simp only [↓reduceIte] at done
    split at done
    · cases done
    next same =>
      cases done
      obtain ⟨sorted, members⟩ := closed.sorted same
      refine ⟨sorted.distinct, fun header => (members header).trans (reading.keys header),
        fun header member target includes => ?_⟩
      have key := (members header).mp member
      exact sorted.idxOf_lt member ((reading.lists header key target).mpr (.single includes))

/-! ## Cycles -/

theorem Reading.transGen_of_dependsOn {scope : Scope} {graph : Graph}
    (reading : Reading scope headers graph) {node target : Text}
    (depends : TransGen graph.DependsOn node target) : TransGen scope.Includes node target := by
  induction depends with
  | single direct => exact (reading.lists _ direct.mem_keys _).mp direct
  | tail _ direct ih => exact ih.trans ((reading.lists _ direct.mem_keys _).mp direct)

theorem rootLists_of_readable (r : Resolver) (searchPaths : List Text)
    (readable : ∀ header ∈ headers, ∃ text, readHeader tree header = .ok text)
    (graph : Graph) : ∃ roots, r.rootLists tree searchPaths headers graph = .ok roots := by
  induction headers generalizing graph with
  | nil => exact ⟨graph, rfl⟩
  | cons header rest ih =>
    obtain ⟨⟨text, reading⟩, others⟩ := List.forall_mem_cons.mp readable
    obtain ⟨root, canonical, file, again⟩ := readHeader_canonical reading
    obtain ⟨found, answer⟩ := r.answer_of_readable searchPaths file.keyed again
    obtain ⟨roots, listed⟩ := ih others (graph.set root found)
    refine ⟨roots, ?_⟩
    rw [rootLists, canonical]
    dsimp only
    rw [answer]
    exact listed

theorem compilationOrder_circular
    (readable : ∀ header ∈ headers, ∃ text, readHeader tree header = .ok text) :
    ((∃ node, (r.compilationOrder tree headers searchPaths .empty).1 = .error (.circular node)) ↔
        ∃ node, (r.scope tree searchPaths).Reached headers node ∧
          (r.scope tree searchPaths).OnCycle node) ∧
      ∀ node, (r.compilationOrder tree headers searchPaths .empty).1 = .error (.circular node) →
        (r.scope tree searchPaths).Reached headers node ∧
          (r.scope tree searchPaths).OnCycle node := by
  have settled : ∀ header ∈ headers, tree.Settled header := by
    intro header member
    obtain ⟨text, reading⟩ := readable header member
    exact FileTree.settled_of_readable reading
  obtain ⟨roots, listed⟩ := r.rootLists_of_readable searchPaths readable []
  have reading := reading_closedGraph settled listed
  have closed := closing_of_rootLists listed
  rw [compilationOrder_settled settled, orderOf, graphOf, listed]
  simp only [↓reduceIte]
  cases sorting : (r.closedGraph tree searchPaths roots roots.nodes).topologicalOrder with
  | error cyclic =>
    obtain ⟨key, depends⟩ := closed.cyclic sorting
    have reached := (reading.keys cyclic).mp key
    have cycle := reading.transGen_of_dependsOn depends
    refine ⟨⟨fun _ => ⟨cyclic, reached, cycle⟩, fun _ => ⟨cyclic, rfl⟩⟩, fun node same => ?_⟩
    cases same
    exact ⟨reached, cycle⟩
  | ok order =>
    obtain ⟨sorted, members⟩ := closed.sorted sorting
    refine ⟨⟨?_, ?_⟩, fun node same => by cases same⟩
    · rintro ⟨node, same⟩
      cases same
    · rintro ⟨node, reached, cycle⟩
      -- a node on a cycle would stand before itself
      have key := (reading.keys node).mpr reached
      have earlier := sorted.idxOf_lt ((members node).mpr key)
        ((reading.lists node key node).mpr cycle)
      exact absurd earlier.2 (Nat.lt_irrefl _)

theorem compilationOrder_circular_mutual :
    ((∃ node, ((Resolver.mk []).compilationOrder mutualTree ["a.h".toList] [] .empty).1 =
          .error (.circular node)) ↔
        ∃ node, ((Resolver.mk []).scope mutualTree []).Reached ["a.h".toList] node ∧
          ((Resolver.mk []).scope mutualTree []).OnCycle node) ∧
      ∀ node, ((Resolver.mk []).compilationOrder mutualTree ["a.h".toList] [] .empty).1 =
          .error (.circular node) →
        ((Resolver.mk []).scope mutualTree []).Reached ["a.h".toList] node ∧
          ((Resolver.mk []).scope mutualTree []).OnCycle node := by
  refine compilationOrder_circular (r := ⟨[]⟩) fun header member => ?_
  cases List.mem_singleton.mp member
  exact ⟨"#include \"b.h\"\n".toList, by cbv⟩

end CHeader.Resolver
