import CHeader.Graph.Sort
import CHeader.Proofs.Table
import Mathlib.Data.List.Perm.Subperm
import Mathlib.Logic.Relation

/-!
# The topological order is one

`Visits` says what visiting some nodes may answer: an extension of the order in which every node
stands after all that it depends on, or a node on a cycle. The chain of nodes being visited leads to
the node that is visited next, so a node that is met on the chain depends on itself. From this, a
graph has an order exactly if no node depends on itself.
-/
namespace CHeader.Graph

open Relation

variable {graph : Graph}

def DependsOn (graph : Graph) (node dependency : Text) : Prop :=
  dependency ∈ graph.dependencies node

theorem mem_nodes_of_mem_keys {node : Text} (key : node ∈ Table.keys graph) :
    node ∈ graph.nodes := by
  obtain ⟨entry, member, rfl⟩ := List.mem_map.mp key
  exact List.mem_flatMap.mpr ⟨entry, member, List.mem_cons_self⟩

theorem DependsOn.mem_nodes {node dependency : Text} (depends : graph.DependsOn node dependency) :
    dependency ∈ graph.nodes := by
  unfold DependsOn dependencies at depends
  cases found : graph.get? node with
  | none => simp [found] at depends
  | some listed =>
    rw [found, Option.getD_some] at depends
    exact List.mem_flatMap.mpr
      ⟨(node, listed), Table.mem_of_get? found, List.mem_cons_of_mem _ depends⟩

theorem DependsOn.mem_keys {node dependency : Text} (depends : graph.DependsOn node dependency) :
    node ∈ Table.keys graph := by
  unfold DependsOn dependencies at depends
  cases found : graph.get? node with
  | none => simp [found] at depends
  | some listed => exact Table.mem_keys_of_get? found

/-! ## Sorted lists -/

/-- Every node stands after all that it depends on. -/
structure Sorted (graph : Graph) (order : List Text) : Prop where
  distinct : order.Nodup
  before : ∀ front node back, order = front ++ node :: back →
    ∀ dependency, graph.DependsOn node dependency → dependency ∈ front

theorem sorted_nil : graph.Sorted [] := ⟨List.nodup_nil, by simp⟩

theorem Sorted.concat {order : List Text} {node : Text} (sorted : graph.Sorted order)
    (fresh : node ∉ order) (complete : ∀ dependency, graph.DependsOn node dependency →
      dependency ∈ order) : graph.Sorted (order ++ [node]) := by
  refine ⟨?_, fun front last back split => ?_⟩
  · rw [← List.concat_eq_append]
    exact sorted.distinct.concat fresh
  · -- the split is at the new node or at one before it
    rcases List.eq_nil_or_concat back with rfl | ⟨inner, final, rfl⟩
    · obtain ⟨rfl, same⟩ := List.append_inj' split rfl
      cases same
      exact complete
    · rw [List.concat_eq_append, ← List.cons_append, ← List.append_assoc] at split
      exact sorted.before front last inner (List.append_inj' split rfl).1

theorem Sorted.idxOf_lt {order : List Text} {node dependency : Text} (sorted : graph.Sorted order)
    (member : node ∈ order) (depends : graph.DependsOn node dependency) :
    dependency ∈ order ∧ order.idxOf dependency < order.idxOf node := by
  obtain ⟨front, back, rfl⟩ := List.append_of_mem member
  have earlier := sorted.before front node back rfl dependency depends
  have apart : node ∉ front := fun again =>
    (List.nodup_append.mp sorted.distinct).2.2 node again node List.mem_cons_self rfl
  refine ⟨List.mem_append_left _ earlier, ?_⟩
  rw [List.idxOf_append_of_mem earlier, List.idxOf_append_of_notMem apart, List.idxOf_cons_self]
  have bound := List.idxOf_lt_length_of_mem earlier
  omega

/-! ## Visits -/

/-- What visiting nodes may answer, when `active` are being visited and `done` are finished. -/
def Visits (graph : Graph) (active nodes done : List Text) : Except Text (List Text) → Prop
  | .ok order => graph.Sorted order ∧ done <+: order ∧ nodes ⊆ order ∧
    ∀ node ∈ order, node ∈ done ∨
      node ∉ active ∧ ∃ start ∈ nodes, ReflTransGen graph.DependsOn start node
  | .error cyclic => TransGen graph.DependsOn cyclic cyclic ∧
    ∃ start ∈ nodes, ReflTransGen graph.DependsOn start cyclic

theorem visits_foldlM {active nodes done : List Text}
    {visitNode : List Text → Text → Except Text (List Text)}
    (step : ∀ node ∈ nodes, ∀ done, graph.Sorted done →
      graph.Visits active [node] done (visitNode done node))
    (sorted : graph.Sorted done) :
    graph.Visits active nodes done (nodes.foldlM visitNode done) := by
  induction nodes generalizing done with
  | nil => exact ⟨sorted, List.prefix_refl done, List.nil_subset done, fun _ => Or.inl⟩
  | cons node nodes ih =>
    rw [List.foldlM_cons]
    have first := step node List.mem_cons_self done sorted
    cases visited : visitNode done node with
    | error cyclic =>
      rw [visited] at first
      obtain ⟨cycle, start, alone, reached⟩ := first
      exact ⟨cycle, node, List.mem_cons_self, List.mem_singleton.mp alone ▸ reached⟩
    | ok between =>
      rw [visited] at first
      obtain ⟨sortedBetween, kept, included, origin⟩ := first
      have others := ih (fun other member => step other (List.mem_cons_of_mem _ member))
        sortedBetween
      change graph.Visits active (node :: nodes) done (nodes.foldlM visitNode between)
      cases rest : nodes.foldlM visitNode between with
      | error cyclic =>
        rw [rest] at others
        obtain ⟨cycle, start, member, reached⟩ := others
        exact ⟨cycle, start, List.mem_cons_of_mem _ member, reached⟩
      | ok order =>
        rw [rest] at others
        obtain ⟨sortedAll, keptAll, includedAll, originAll⟩ := others
        refine ⟨sortedAll, kept.trans keptAll, ?_, fun other member => ?_⟩
        · exact List.cons_subset.mpr ⟨keptAll.subset (included List.mem_cons_self), includedAll⟩
        · rcases originAll other member with known | ⟨inactive, start, listed, reached⟩
          · rcases origin other known with old | ⟨inactive, start, alone, reached⟩
            · exact Or.inl old
            · exact Or.inr ⟨inactive, node, List.mem_cons_self,
                List.mem_singleton.mp alone ▸ reached⟩
          · exact Or.inr ⟨inactive, start, List.mem_cons_of_mem _ listed, reached⟩

/-- The depth allowed is never reached: the nodes being visited are distinct nodes of the graph. -/
theorem visits_visit {active done : List Text} {node : Text} (fuel : Nat)
    (inside : node ∈ graph.nodes) (members : active ⊆ graph.nodes) (distinct : active.Nodup)
    (leading : ∀ upper ∈ active, TransGen graph.DependsOn upper node)
    (enough : graph.nodes.length + 2 ≤ fuel + active.length) (sorted : graph.Sorted done) :
    graph.Visits active [node] done (graph.visit fuel active done node) := by
  induction fuel generalizing active done node with
  | zero =>
    -- more active nodes than the graph has
    have bound := (distinct.subperm members).length_le
    omega
  | succ fuel ih =>
    rw [visit]
    split
    next finished =>
      exact ⟨sorted, List.prefix_refl done, by simpa using finished, fun _ => Or.inl⟩
    next unfinished =>
      split
      next circular =>
        -- the chain from the active node back to itself is the cycle
        exact ⟨leading node circular, node, List.mem_singleton_self node, .refl⟩
      next inactive =>
        have below : graph.Visits (node :: active) (graph.dependencies node) done
            ((graph.dependencies node).foldlM (visit graph fuel (node :: active)) done) := by
          refine visits_foldlM (fun dependency listed done sorted => ?_) sorted
          have depends : graph.DependsOn node dependency := listed
          refine ih depends.mem_nodes (List.cons_subset.mpr ⟨inside, members⟩)
            (List.nodup_cons.mpr ⟨inactive, distinct⟩) ?_ (by rw [List.length_cons]; omega) sorted
          intro upper member
          rcases List.mem_cons.mp member with rfl | above
          · exact .single depends
          · exact (leading upper above).tail depends
        cases visited : (graph.dependencies node).foldlM (visit graph fuel (node :: active)) done with
        | error cyclic =>
          rw [visited] at below
          obtain ⟨cycle, start, listed, reached⟩ := below
          exact ⟨cycle, node, List.mem_singleton_self node, .head listed reached⟩
        | ok order =>
          rw [visited] at below
          obtain ⟨sortedBelow, kept, included, origin⟩ := below
          -- nothing below adds an active node, so the node is added once
          have fresh : node ∉ order := by
            intro member
            rcases origin node member with old | ⟨outside, _⟩
            · exact unfinished old
            · exact outside List.mem_cons_self
          refine ⟨sortedBelow.concat fresh fun dependency depends => included depends,
            kept.trans (List.prefix_append order [node]), by simp, fun other member => ?_⟩
          rcases List.mem_append.mp member with earlier | last
          · rcases origin other earlier with old | ⟨outside, start, listed, reached⟩
            · exact Or.inl old
            · exact Or.inr ⟨fun above => outside (List.mem_cons_of_mem _ above), node,
                List.mem_singleton_self node, .head listed reached⟩
          · rw [List.mem_singleton.mp last]
            exact Or.inr ⟨inactive, node, List.mem_singleton_self node, .refl⟩

theorem visits_topologicalOrder (graph : Graph) :
    graph.Visits [] (Table.keys graph) [] graph.topologicalOrder := by
  refine visits_foldlM (fun node key done sorted => ?_) sorted_nil
  exact visits_visit _ (mem_nodes_of_mem_keys key) (List.nil_subset _) List.nodup_nil (by simp)
    (by simp) sorted

/-! ## Orders and cycles of a whole graph -/

/-- Some node depends on itself, directly or not. -/
def Cyclic (graph : Graph) : Prop := ∃ node, TransGen graph.DependsOn node node

/-- The keys and what they mention, each once and after all that it depends on. -/
structure Orders (graph : Graph) (order : List Text) : Prop where
  distinct : order.Nodup
  members : ∀ node, node ∈ order ↔
    node ∈ Table.keys graph ∨ ∃ dependent, graph.DependsOn dependent node
  earlier : ∀ node dependency, graph.DependsOn node dependency →
    order.idxOf dependency < order.idxOf node

theorem Orders.idxOf_lt_of_transGen {order : List Text} {node dependency : Text}
    (orders : graph.Orders order) (depends : TransGen graph.DependsOn node dependency) :
    order.idxOf dependency < order.idxOf node := by
  induction depends with
  | single direct => exact orders.earlier _ _ direct
  | tail _ direct ih => exact Nat.lt_trans (orders.earlier _ _ direct) ih

/-- A node on a cycle would stand before itself. -/
theorem Orders.not_cyclic {order : List Text} (orders : graph.Orders order) : ¬graph.Cyclic :=
  fun ⟨_, cycle⟩ => Nat.lt_irrefl _ (orders.idxOf_lt_of_transGen cycle)

theorem orders_of_topologicalOrder {order : List Text}
    (sorting : graph.topologicalOrder = .ok order) : graph.Orders order := by
  have visited := visits_topologicalOrder graph
  rw [sorting] at visited
  obtain ⟨sorted, -, included, origin⟩ := visited
  refine ⟨sorted.distinct, fun node => ⟨fun member => ?_, ?_⟩, fun node dependency depends => ?_⟩
  · rcases origin node member with nothing | ⟨-, start, key, reached⟩
    · cases nothing
    · -- a node that is not the start of its way is mentioned by the one before it
      rcases ReflTransGen.cases_tail reached with rfl | ⟨dependent, -, depends⟩
      · exact Or.inl key
      · exact Or.inr ⟨dependent, depends⟩
  · rintro (key | ⟨dependent, depends⟩)
    · exact included key
    · exact (sorted.idxOf_lt (included depends.mem_keys) depends).1
  · exact (sorted.idxOf_lt (included depends.mem_keys) depends).2

theorem transGen_of_topologicalOrder {cyclic : Text}
    (sorting : graph.topologicalOrder = .error cyclic) :
    TransGen graph.DependsOn cyclic cyclic := by
  have visited := visits_topologicalOrder graph
  rw [sorting] at visited
  exact visited.1

theorem topologicalOrder_total (graph : Graph) :
    (¬graph.Cyclic → ∃ order, graph.topologicalOrder = .ok order ∧ graph.Orders order) ∧
      (graph.Cyclic → ∃ cyclic, graph.topologicalOrder = .error cyclic ∧
        TransGen graph.DependsOn cyclic cyclic) := by
  cases sorting : graph.topologicalOrder with
  | ok order =>
    have orders := orders_of_topologicalOrder sorting
    exact ⟨fun _ => ⟨order, rfl, orders⟩, fun cycle => absurd cycle orders.not_cyclic⟩
  | error cyclic =>
    have cycle := transGen_of_topologicalOrder sorting
    exact ⟨fun acyclic => absurd ⟨cyclic, cycle⟩ acyclic, fun _ => ⟨cyclic, rfl, cycle⟩⟩

/-- A diamond in which a dependency is listed twice and the last one is no key, and a graph whose
cycle is not at its first key. -/
theorem topologicalOrder_total_diamond :
    let diamond : Graph := [("a".toList, ["b".toList, "c".toList, "b".toList]),
      ("b".toList, ["d".toList]), ("c".toList, ["d".toList])]
    let tail : Graph := [("a".toList, ["b".toList]), ("b".toList, ["c".toList]),
      ("c".toList, ["b".toList])]
    (∃ order, diamond.topologicalOrder = .ok order ∧ diamond.Orders order) ∧
      ∃ cyclic, tail.topologicalOrder = .error cyclic ∧
        TransGen tail.DependsOn cyclic cyclic := by
  intro diamond tail
  have sorting : diamond.topologicalOrder =
      .ok ["d".toList, "b".toList, "c".toList, "a".toList] := by decide
  have cycle : tail.Cyclic :=
    ⟨"b".toList, .tail (b := "c".toList) (.single (by decide : "c".toList ∈ tail.dependencies _))
      (by decide : "b".toList ∈ tail.dependencies _)⟩
  exact ⟨(topologicalOrder_total diamond).1 (orders_of_topologicalOrder sorting).not_cyclic,
    (topologicalOrder_total tail).2 cycle⟩

end CHeader.Graph
