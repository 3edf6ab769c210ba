import CHeader.Proofs.Resolver.Order

/-!
# The closed graph

The closed graph of headers that can be read has an entry for each header that they reach. The entry
is what a resolver without a memory answers about that header, and nothing if the header cannot be
read; so the graph mentions its own nodes only, and what a dependency depends on is listed as well.
-/
namespace CHeader.Resolver

open Text Relation

variable {tree : FileTree} {r : Resolver} {headers searchPaths : List Text}

/-- The graph has one entry for each header that the first ones reach, with all it depends on. -/
structure Complete (r : Resolver) (tree : FileTree) (headers searchPaths : List Text)
    (graph : Graph) : Prop where
  distinct : (Table.keys graph).Nodup
  keys : ∀ node, node ∈ Table.keys graph ↔ (r.scope tree searchPaths).Reached headers node
  closed : ∀ node found, (node, found) ∈ graph → ∀ target ∈ found, target ∈ Table.keys graph
  answers : ∀ node found, (node, found) ∈ graph → ∀ text, readHeader tree node = .ok text →
    r.answer tree searchPaths node = .ok found
  leaves : ∀ node found, (node, found) ∈ graph → ∀ cause, readHeader tree node = .error cause →
    found = []
  transitive : ∀ upper middle lower above below, (upper, above) ∈ graph → (middle, below) ∈ graph →
    middle ∈ above → lower ∈ below → lower ∈ above

theorem complete_closedGraph {roots : Graph} (settled : ∀ header ∈ headers, tree.Settled header)
    (listed : r.rootLists tree searchPaths headers [] = .ok roots) :
    r.Complete tree headers searchPaths (r.closedGraph tree searchPaths roots roots.nodes) := by
  have answered := (rootLists_ok listed answered_nil).1
  have closing := closing_of_rootLists listed
  have reading := reading_closedGraph settled listed
  have entry : ∀ {node found}, (node, found) ∈ r.closedGraph tree searchPaths roots roots.nodes →
      found = r.listOf tree searchPaths roots node := fun member =>
    closing.entries _ _ (Table.get?_of_mem closing.distinct member)
  have key : ∀ {node found}, (node, found) ∈ r.closedGraph tree searchPaths roots roots.nodes →
      node ∈ Table.keys (r.closedGraph tree searchPaths roots roots.nodes) := fun member =>
    List.mem_map_of_mem member
  -- every node is where its canonical path says, so it is read where its list was discovered
  have own : ∀ {node found}, (node, found) ∈ r.closedGraph tree searchPaths roots roots.nodes →
      tree.canonical node = .ok node := by
    intro node found member
    obtain ⟨header, asked, root, canonical, path⟩ := (reading.keys node).mp (key member)
    exact (r.scope tree searchPaths).canonical_of_reflTransGen
      (settled header asked root canonical) path
  constructor
  case distinct => exact closing.distinct
  case keys => exact reading.keys
  case closed =>
    intro node found member target inside
    rw [entry member] at inside
    exact (closing.covered node (key member) target inside).resolve_right List.not_mem_nil
  case answers =>
    intro node found member text readable
    obtain ⟨known, answer⟩ := r.answer_of_readable searchPaths ⟨own member, own member⟩ readable
    rcases listOf_cases answered node with same | ⟨⟨cause, failed⟩, -⟩
    · rw [entry member, same]
    · rw [failed] at answer
      cases answer
  case leaves =>
    intro node found member cause unreadable
    have failed : r.answer tree searchPaths node = .error (.header cause) :=
      answer_of_unreadable ⟨own member, own member⟩ unreadable
    rcases listOf_cases answered node with same | ⟨-, nothing⟩
    · rw [failed] at same
      cases same
    · rw [entry member, nothing]
  case transitive =>
    -- the lists are transitive inclusion
    intro upper middle lower above below first second inside onward
    rw [entry first, mem_listOf_iff answered (own first)] at inside ⊢
    rw [entry second, mem_listOf_iff answered (own second)] at onward
    exact inside.trans onward

theorem graph_complete (r : Resolver) (searchPaths : List Text)
    (readable : ∀ header ∈ headers, ∃ text, readHeader tree header = .ok text) :
    ∃ graph, (r.graph tree headers searchPaths true .empty).1 = .ok graph ∧
      r.Complete tree headers searchPaths graph := by
  have settled : ∀ header ∈ headers, tree.Settled header := by
    intro header member
    obtain ⟨text, reading⟩ := readable header member
    exact FileTree.settled_of_readable reading
  obtain ⟨roots, listed⟩ := r.rootLists_of_readable searchPaths readable []
  refine ⟨_, ?_, complete_closedGraph settled listed⟩
  rw [graph_settled settled, graphOf, listed]
  rfl

/-- Two headers that include each other are entered, and so is the third one, which is a leaf because
it cannot be read. -/
theorem graph_complete_mutual :
    (∀ header ∈ ["a.h".toList], ∃ text, readHeader mutualTree header = .ok text) ∧
      (Resolver.mk []).Complete mutualTree ["a.h".toList] [] [
        ("/p/a.h".toList, ["/p/b.h".toList, "/p/a.h".toList, "/p/c.h".toList]),
        ("/p/b.h".toList, ["/p/a.h".toList, "/p/b.h".toList, "/p/c.h".toList]),
        ("/p/c.h".toList, [])] := by
  have readable : ∀ header ∈ ["a.h".toList], ∃ text, readHeader mutualTree header = .ok text := by
    intro header member
    cases List.mem_singleton.mp member
    exact ⟨"#include \"b.h\"\n".toList, by cbv⟩
  obtain ⟨graph, built, complete⟩ := graph_complete ⟨[]⟩ [] readable
  have run : ((Resolver.mk []).graph mutualTree ["a.h".toList] [] true .empty).1 = .ok [
      ("/p/a.h".toList, ["/p/b.h".toList, "/p/a.h".toList, "/p/c.h".toList]),
      ("/p/b.h".toList, ["/p/a.h".toList, "/p/b.h".toList, "/p/c.h".toList]),
      ("/p/c.h".toList, [])] := by cbv
  rw [built, Except.ok.injEq] at run
  exact ⟨readable, run ▸ complete⟩

end CHeader.Resolver
