import CHeader.Proofs.Graph.Closure
import CHeader.Proofs.Graph.DepthFirst

/-!
# Walks over more than what comes next

A list may be longer than it has to be: between its nodes there may stand nodes that lie below
earlier ones. `Expansion` says that of two lists. Once a visit of a node has succeeded all that the
node depends on is finished, so the nodes in between change neither the order nor the node at which
a walk ends, and visiting the longer list is a walk over the shorter one.
-/
namespace CHeader.Graph

open Relation

/-- `whole` holds the heads in their order. It may leave out a head that is known, and between the
heads it may hold what lies below nodes that are known by then. -/
inductive Expansion (below : Text → Text → Prop) : (known heads whole : List Text) → Prop
  | nil (known : List Text) : Expansion below known [] []
  | known {known heads whole : List Text} {node : Text} : node ∈ known →
      Expansion below known heads whole → Expansion below known (node :: heads) whole
  | head {known heads whole : List Text} {node : Text} :
      Expansion below (node :: known) heads whole →
      Expansion below known (node :: heads) (node :: whole)
  | under {known heads whole : List Text} {upper node : Text} : upper ∈ known → below upper node →
      Expansion below (node :: known) heads whole → Expansion below known heads (node :: whole)

namespace Expansion

variable {below : Text → Text → Prop} {known wider heads whole : List Text} {node : Text}

theorem mono (expansion : Expansion below known heads whole) (sub : known ⊆ wider) :
    Expansion below wider heads whole := by
  induction expansion generalizing wider with
  | nil => exact .nil wider
  | known member _ ih => exact .known (sub member) (ih sub)
  | head _ ih => exact .head (ih (List.cons_subset_cons _ sub))
  | under member lower _ ih => exact .under (sub member) lower (ih (List.cons_subset_cons _ sub))

/-- Other nodes may count as lying below, as long as they do so for the nodes of the lists. -/
theorem imp {under : Text → Text → Prop} (expansion : Expansion below known heads whole)
    (lies : ∀ upper ∈ known ++ whole, ∀ lower, below upper lower → under upper lower) :
    Expansion under known heads whole := by
  induction expansion with
  | nil => exact .nil _
  | known member _ ih => exact .known member (ih lies)
  | head _ ih =>
    refine .head (ih fun upper member => lies upper ?_)
    simp only [List.cons_append, List.mem_cons, List.mem_append] at member ⊢
    tauto
  | under place lower _ ih =>
    refine .under place (lies _ (List.mem_append_left _ place) _ lower) (ih fun upper member =>
      lies upper ?_)
    simp only [List.cons_append, List.mem_cons, List.mem_append] at member ⊢
    tauto

theorem heads_subset (expansion : Expansion below known heads whole) : heads ⊆ known ++ whole := by
  induction expansion with
  | nil => exact List.nil_subset _
  | known member _ ih => exact List.cons_subset.mpr ⟨List.mem_append_left _ member, ih⟩
  | head _ ih =>
    refine List.cons_subset.mpr ⟨by simp, fun other member => ?_⟩
    have place := ih member
    simp only [List.cons_append, List.mem_cons, List.mem_append] at place ⊢
    tauto
  | under _ _ _ ih =>
    intro other member
    have place := ih member
    simp only [List.cons_append, List.mem_cons, List.mem_append] at place ⊢
    tauto

/-- A list is its own expansion. -/
theorem refl (below : Text → Text → Prop) (known heads : List Text) :
    Expansion below known heads heads := by
  induction heads generalizing known with
  | nil => exact .nil known
  | cons node heads ih => exact .head (ih (node :: known))

/-- Nodes that lie below known ones are an expansion of nothing. -/
theorem of_under (under : ∀ node ∈ whole, ∃ upper ∈ known, below upper node) :
    Expansion below known [] whole := by
  induction whole generalizing known with
  | nil => exact .nil known
  | cons node whole ih =>
    obtain ⟨⟨upper, member, lower⟩, others⟩ := List.forall_mem_cons.mp under
    refine .under member lower (ih fun other later => ?_)
    obtain ⟨upper, member, lower⟩ := others other later
    exact ⟨upper, List.mem_cons_of_mem _ member, lower⟩

theorem append {more later : List Text} (first : Expansion below known heads whole)
    (second : Expansion below (known ++ whole) more later) :
    Expansion below known (heads ++ more) (whole ++ later) := by
  induction first with
  | nil known => exact second.mono (by simp)
  | known member _ ih => exact .known member (ih second)
  | head _ ih => exact .head (ih (second.mono (by simp)))
  | under place lower _ ih => exact .under place lower (ih (second.mono (by simp)))

/-- What lies below a known node may come first. -/
theorem prepend {lower : List Text} (expansion : Expansion below (node :: known) heads whole)
    (under : ∀ other ∈ lower, below node other) :
    Expansion below (node :: known) heads (lower ++ whole) := by
  have first : Expansion below (node :: known) [] lower :=
    of_under fun other member => ⟨node, List.mem_cons_self, under other member⟩
  exact first.append (expansion.mono (List.subset_append_left _ _))

/-- A node that is known may be left out. -/
theorem drop (expansion : Expansion below known heads (node :: whole)) (member : node ∈ known) :
    Expansion below known heads whole := by
  generalize same : node :: whole = list at expansion
  induction expansion with
  | nil => cases same
  | known place _ ih => exact .known place (ih member same)
  | head later =>
    cases same
    exact .known member (later.mono (List.cons_subset.mpr ⟨member, List.Subset.refl _⟩))
  | under _ _ later =>
    cases same
    exact later.mono (List.cons_subset.mpr ⟨member, List.Subset.refl _⟩)

/-- What is left of the heads when the first node of the list is known as well. -/
theorem advance (expansion : Expansion below known heads (node :: whole)) :
    ∃ left, Expansion below (node :: known) left whole ∧
      ∀ other, Expansion below (node :: known) left other →
        Expansion below known heads (node :: other) := by
  generalize same : node :: whole = list at expansion
  induction expansion with
  | nil => cases same
  | known place _ ih =>
    obtain ⟨left, later, back⟩ := ih same
    exact ⟨left, later, fun other onward => .known place (back other onward)⟩
  | head later =>
    cases same
    exact ⟨_, later, fun other onward => .head onward⟩
  | under place lower later =>
    cases same
    exact ⟨_, later, fun other onward => .under place lower onward⟩

/-- After each key of a graph what it lists may follow. -/
theorem nodes {graph : Graph} (expansion : Expansion below known heads (Table.keys graph))
    (lists : ∀ entry ∈ graph, ∀ other ∈ entry.2, below entry.1 other) :
    Expansion below known heads graph.nodes := by
  generalize same : Table.keys graph = keys at expansion
  induction expansion generalizing graph with
  | nil =>
    cases List.map_eq_nil_iff.mp same
    exact .nil _
  | known member _ ih => exact .known member (ih lists same)
  | head _ ih =>
    obtain ⟨entry, rest, rfl, rfl, rfl⟩ := List.map_eq_cons_iff.mp same
    obtain ⟨here, others⟩ := List.forall_mem_cons.mp lists
    exact .head ((ih others rfl).prepend here)
  | under place lower _ ih =>
    obtain ⟨entry, rest, rfl, rfl, rfl⟩ := List.map_eq_cons_iff.mp same
    obtain ⟨here, others⟩ := List.forall_mem_cons.mp lists
    exact .under place lower ((ih others rfl).prepend here)

end Expansion

/-! ## Visits are walks -/

section

variable {graph : Graph} {next : Text → List Text} {active done : List Text}

/-- A node of the graph depends on what comes next to it and on what lies below that. -/
def Expands (graph : Graph) (next : Text → List Text) : Prop :=
  ∀ node ∈ graph.nodes, Expansion graph.DependsOn [] (next node) (graph.dependencies node)

theorem visit_of_mem {node : Text} (finished : node ∈ done) (fuel : Nat) :
    graph.visit fuel active done node = .ok done := by
  cases fuel with
  | zero => rfl
  | succ fuel => rw [visit, if_pos finished]

theorem Sorted.mem_of_dependsOn {upper lower : Text} (sorted : graph.Sorted done)
    (member : upper ∈ done) (depends : graph.DependsOn upper lower) : lower ∈ done :=
  (sorted.idxOf_lt member depends).1

/-- Visiting one node answers as visits do, and is a walk over the node. -/
def VisitWalks (graph : Graph) (next : Text → List Text) (active : List Text) (node : Text)
    (visitNode : List Text → Text → Except Text (List Text)) : Prop :=
  ∀ done marks, graph.Sorted done → marks.Show active done →
    graph.Visits active [node] done (visitNode done node) ∧
      ∃ result, Walk next marks [node] result ∧ Agree active (visitNode done node) result

/-- Visiting the longer list is a walk over the shorter one. -/
theorem walk_foldlM {known heads whole : List Text} {fuel : Nat} {marks : Marks}
    (expansion : Expansion graph.DependsOn known heads whole) (finished : known ⊆ done)
    (sorted : graph.Sorted done) (shows : marks.Show active done)
    (step : ∀ node ∈ heads, graph.VisitWalks next active node (graph.visit fuel active)) :
    ∃ result, Walk next marks heads result ∧
      Agree active (whole.foldlM (graph.visit fuel active) done) result := by
  induction expansion generalizing done marks with
  | nil => exact ⟨.ok marks, .done marks, .ok shows⟩
  | @known known heads whole node member _ ih =>
    -- the walk meets a black node, which the longer list does without
    obtain ⟨-, others⟩ := List.forall_mem_cons.mp step
    obtain ⟨result, walk, agree⟩ := ih finished sorted shows others
    refine ⟨result, .skip ?_ walk, agree⟩
    rw [shows.colour, if_pos (finished member)]
  | @head known heads whole node _ ih =>
    obtain ⟨here, others⟩ := List.forall_mem_cons.mp step
    obtain ⟨visits, result, walk, agree⟩ := here done marks sorted shows
    rw [List.foldlM_cons]
    cases visited : graph.visit fuel active done node with
    | error cyclic =>
      rw [visited] at agree
      cases agree
      exact ⟨.error cyclic, walk.cons_error, .error cyclic⟩
    | ok between =>
      rw [visited] at agree visits
      obtain ⟨sortedBetween, kept, included, -⟩ := visits
      cases agree with
      | ok showsBetween =>
        -- what was known stays finished, and now the head is as well
        have finishedBetween : node :: known ⊆ between :=
          List.cons_subset.mpr ⟨included List.mem_cons_self,
            List.Subset.trans finished kept.subset⟩
        obtain ⟨result, later, agree⟩ := ih finishedBetween sortedBetween showsBetween others
        exact ⟨result, walk.cons_ok later, agree⟩
  | @under known heads whole upper node member depends _ ih =>
    -- the upper node is finished, and so the lower one is
    have lower := sorted.mem_of_dependsOn (finished member) depends
    rw [List.foldlM_cons, visit_of_mem lower]
    exact ih (List.cons_subset.mpr ⟨lower, finished⟩) sorted shows step

theorem visitWalks_visit (expands : graph.Expands next) {node : Text} (fuel : Nat)
    (inside : node ∈ graph.nodes) (members : active ⊆ graph.nodes) (distinct : active.Nodup)
    (leading : ∀ upper ∈ active, TransGen graph.DependsOn upper node)
    (enough : graph.nodes.length + 2 ≤ fuel + active.length) :
    graph.VisitWalks next active node (graph.visit fuel active) := by
  induction fuel generalizing active node with
  | zero =>
    -- more active nodes than the graph has
    have bound := (distinct.subperm members).length_le
    omega
  | succ fuel ih =>
    intro done marks sorted shows
    refine ⟨visits_visit _ inside members distinct leading enough sorted, ?_⟩
    have colour := shows.colour node
    rw [visit]
    split
    next finished =>
      rw [if_pos finished] at colour
      exact ⟨.ok marks, .skip colour (.done marks), .ok shows⟩
    next unfinished =>
      rw [if_neg unfinished] at colour
      split
      next circular =>
        rw [if_pos circular] at colour
        exact ⟨.error node, .cycle colour, .error node⟩
      next inactive =>
        rw [if_neg inactive] at colour
        have step : ∀ other ∈ next node,
            graph.VisitWalks next (node :: active) other (graph.visit fuel (node :: active)) := by
          intro other listed
          have depends : graph.DependsOn node other := (expands node inside).heads_subset listed
          apply ih depends.mem_nodes (List.cons_subset.mpr ⟨inside, members⟩)
            (List.nodup_cons.mpr ⟨inactive, distinct⟩)
          · intro upper member
            rcases List.mem_cons.mp member with rfl | above
            · exact .single depends
            · exact (leading upper above).tail depends
          · rw [List.length_cons]
            omega
        obtain ⟨result, walk, agree⟩ := walk_foldlM (expands node inside) (List.nil_subset _)
          sorted (shows.enter unfinished) step
        cases visited : (graph.dependencies node).foldlM (graph.visit fuel (node :: active)) done with
        | error cyclic =>
          rw [visited] at agree
          cases agree
          exact ⟨.error cyclic, .fail colour walk, .error cyclic⟩
        | ok order =>
          rw [visited] at agree
          cases agree with
          | @ok _ below showsBelow =>
            exact ⟨.ok (below.finish node), .descend colour walk (.done _),
              .ok showsBelow.finish⟩

/-- The topological order is the post-order of a walk from roots of which the keys are an expansion. -/
theorem postOrder_topologicalOrder {roots : List Text} (expands : graph.Expands next)
    (keys : Expansion graph.DependsOn [] roots (Table.keys graph)) (outcome : Except Text (List Text)) :
    PostOrder next roots outcome ↔ outcome = graph.topologicalOrder := by
  have visits : ∀ root ∈ roots,
      graph.VisitWalks next [] root (graph.visit (graph.nodes.length + 2) []) := by
    intro root member
    have node := mem_nodes_of_mem_keys (keys.heads_subset member)
    apply visitWalks_visit expands _ node (List.nil_subset _) List.nodup_nil
    · simp
    · simp
  obtain ⟨result, walk, agree⟩ :=
    walk_foldlM keys (List.nil_subset _) sorted_nil .fresh visits
  rw [postOrder_iff walk, agree.map_order]
  exact Iff.rfl

end

/-! ## Closing keeps to the order -/

section

variable {list : Text → List Text}

/-- The nodes that closing a graph adds are an expansion of the heads of which the pending nodes are
one. -/
theorem closure_keys {candidates pending heads : List Text} {width fuel : Nat} {graph : Graph}
    (bounded : Bounded list candidates width) (inside : pending ⊆ candidates)
    (enough : work candidates width pending graph ≤ fuel)
    (expansion : Expansion (fun upper lower => lower ∈ list upper) (Table.keys graph) heads pending) :
    ∃ added, Table.keys (closure list fuel pending graph) = Table.keys graph ++ added ∧
      Expansion (fun upper lower => lower ∈ list upper) (Table.keys graph) heads added := by
  induction fuel generalizing pending heads graph with
  | zero =>
    cases eq_nil_of_work_le_zero enough
    exact ⟨[], by simp [closure], expansion⟩
  | succ fuel ih =>
    cases pending with
    | nil => exact ⟨[], by simp [closure], expansion⟩
    | cons node rest =>
      obtain ⟨here, others⟩ := List.cons_subset.mp inside
      rw [closure]
      split
      next known =>
        -- a key is left out of what is pending, and so of the heads
        have one := work_cons candidates width node rest graph
        exact ih others (by omega) (expansion.drop (Table.isSome_get?_iff.mp known))
      next fresh =>
        have less := work_enter rest bounded here (by simpa using fresh)
        have unknown : node ∉ Table.keys graph := by rwa [Table.isSome_get?_iff] at fresh
        obtain ⟨left, later, back⟩ := expansion.advance
        have same : node :: Table.keys graph ⊆ Table.keys (graph.set node (list node)) := by
          rw [Table.keys_set_of_not_mem unknown]
          simp
        -- what becomes pending lies below the node that was entered
        have under : Expansion (fun upper lower => lower ∈ list upper)
            (Table.keys (graph.set node (list node)) ++ rest) []
            ((list node).filter fun other => ((graph.set node (list node)).get? other).isNone) :=
          .of_under fun other member => ⟨node,
            List.mem_append_left _ (same List.mem_cons_self), (List.mem_filter.mp member).1⟩
        have more := (later.mono same).append under
        rw [List.append_nil] at more
        obtain ⟨added, keys, onward⟩ := ih
          (List.append_subset.mpr ⟨others,
            List.Subset.trans (List.filter_subset_self _) (bounded.inside node here)⟩)
          (by omega) more
        refine ⟨node :: added, ?_, back added (onward.mono ?_)⟩
        · rw [keys, Table.keys_set_of_not_mem unknown, List.append_assoc, List.singleton_append]
        · rw [Table.keys_set_of_not_mem unknown]
          simp

/-- The order of the closure of a graph is a walk from the keys of the graph over what is listed. -/
theorem postOrder_closure {candidates : List Text} {width fuel : Nat} {roots : Graph}
    (bounded : Bounded list candidates width) (inside : roots.nodes ⊆ candidates)
    (enough : work candidates width roots.nodes [] ≤ fuel)
    (lists : ∀ entry ∈ roots, ∀ other ∈ entry.2, other ∈ list entry.1)
    (outcome : Except Text (List Text)) :
    PostOrder list (Table.keys roots) outcome ↔
      outcome = (closure list fuel roots.nodes []).topologicalOrder := by
  have closed := closing_closure bounded inside enough (Closing.initial list roots.nodes)
  obtain ⟨added, keys, expansion⟩ := closure_keys bounded inside enough
    ((Expansion.refl _ (Table.keys ([] : Graph)) (Table.keys roots)).nodes lists)
  rw [Table.keys_nil, List.nil_append] at keys
  rw [Table.keys_nil, ← keys] at expansion
  apply postOrder_topologicalOrder
  · intro node member
    rw [closed.dependencies_eq (closed.mem_keys_of_mem_nodes member)]
    exact .refl _ _ _
  · exact expansion.imp fun upper member lower listed => (closed.dependsOn_iff member).mpr listed

end

end CHeader.Graph
