import CHeader.Proofs.Graph.Sort

/-!
# Closing a graph

The pending nodes are entered with what each of them lists, and what they list becomes pending. Every
step either drops a pending node or enters a new one, so a bound on the nodes that can be met bounds
the steps, and a longer allowance changes nothing. What is entered in the end is what the first
pending nodes lead to.
-/
namespace CHeader.Graph

open Relation

variable {list : Text → List Text}

def closure (list : Text → List Text) : (fuel : Nat) → (pending : List Text) → Graph → Graph
  | 0, _, graph => graph
  | _ + 1, [], graph => graph
  | fuel + 1, node :: rest, graph =>
    if (graph.get? node).isSome then closure list fuel rest graph
    else
      let graph := graph.set node (list node)
      closure list fuel (rest ++ (list node).filter fun other => (graph.get? other).isNone) graph

/-! ## The number of steps -/

/-- What candidates list are candidates, and no list is longer than `width`. -/
structure Bounded (list : Text → List Text) (candidates : List Text) (width : Nat) : Prop where
  inside : ∀ node ∈ candidates, list node ⊆ candidates
  narrow : ∀ node ∈ candidates, (list node).length ≤ width

/-- The steps that are left: one for each pending node, and as many for each node that is not yet
entered as it can make pending. -/
def work (candidates : List Text) (width : Nat) (pending : List Text) (graph : Graph) : Nat :=
  pending.length + width * (candidates.filter fun node => (graph.get? node).isNone).length

theorem eq_nil_of_work_le_zero {candidates pending : List Text} {width : Nat} {graph : Graph}
    (done : work candidates width pending graph ≤ 0) : pending = [] := by
  unfold work at done
  exact List.eq_nil_of_length_eq_zero (by omega)

theorem work_cons (candidates : List Text) (width : Nat) (node : Text) (rest : List Text)
    (graph : Graph) :
    work candidates width (node :: rest) graph = work candidates width rest graph + 1 := by
  simp only [work, List.length_cons]
  omega

theorem filter_get?_set (candidates : List Text) (graph : Graph) (node : Text)
    (listed : List Text) :
    (candidates.filter fun other => (Table.get? other (graph.set node listed)).isNone) =
      (candidates.filter fun other => (graph.get? other).isNone).filter
        fun other => other ≠ node := by
  rw [List.filter_filter]
  congr 1
  funext other
  rw [Table.get?_set]
  by_cases same : node = other
  · simp [same]
  · simp [same, Ne.symm same]

theorem work_enter {candidates : List Text} (rest : List Text) {width : Nat} {graph : Graph}
    {node : Text} (bounded : Bounded list candidates width) (inside : node ∈ candidates)
    (fresh : (graph.get? node).isSome = false) :
    work candidates width
        (rest ++ (list node).filter fun other => ((graph.set node (list node)).get? other).isNone)
        (graph.set node (list node)) < work candidates width (node :: rest) graph := by
  have listed := bounded.narrow node inside
  have added := List.length_filter_le
    (fun other => ((graph.set node (list node)).get? other).isNone) (list node)
  -- the node itself is a candidate that was not entered
  have entered : ((candidates.filter fun other => (graph.get? other).isNone).filter
      fun other => other ≠ node).length <
      (candidates.filter fun other => (graph.get? other).isNone).length := by
    rw [List.length_filter_lt_length_iff_exists]
    exact ⟨node, List.mem_filter.mpr ⟨inside, by simpa using fresh⟩, by simp⟩
  have saved := Nat.mul_le_mul_left width (Nat.succ_le_of_lt entered)
  rw [Nat.mul_succ] at saved
  unfold work
  rw [filter_get?_set candidates, List.length_append, List.length_cons]
  omega

theorem closure_allowance {candidates pending : List Text} {width fuel more : Nat} {graph : Graph}
    (bounded : Bounded list candidates width) (inside : pending ⊆ candidates)
    (enough : work candidates width pending graph ≤ fuel)
    (enoughMore : work candidates width pending graph ≤ more) :
    closure list fuel pending graph = closure list more pending graph := by
  induction fuel generalizing more pending graph with
  | zero =>
    cases eq_nil_of_work_le_zero enough
    cases more <;> rfl
  | succ fuel ih =>
    cases pending with
    | nil => cases more <;> rfl
    | cons node rest =>
      -- a pending node is work, so the other allowance is positive as well
      have one := work_cons candidates width node rest graph
      obtain ⟨more, rfl⟩ : ∃ less, more = less + 1 := ⟨more - 1, by omega⟩
      obtain ⟨here, others⟩ := List.cons_subset.mp inside
      rw [closure, closure]
      split
      next known => exact ih others (by omega) (by omega)
      next fresh =>
        have less := work_enter rest bounded here (by simpa using fresh)
        refine ih (List.append_subset.mpr ⟨others, ?_⟩) (by omega) (by omega)
        exact List.Subset.trans (List.filter_subset_self _) (bounded.inside node here)

/-! ## What is entered -/

/-- A graph on the way to being closed: it says what nodes list, and what they list is entered or
pending. -/
structure Closing (list : Text → List Text) (start pending : List Text) (graph : Graph) : Prop where
  entries : ∀ node listed, graph.get? node = some listed → listed = list node
  covered : ∀ node ∈ Table.keys graph, ∀ other ∈ list node,
    other ∈ Table.keys graph ∨ other ∈ pending
  kept : ∀ node ∈ start, node ∈ Table.keys graph ∨ node ∈ pending
  reached : ∀ node, node ∈ Table.keys graph ∨ node ∈ pending →
    ∃ first ∈ start, ReflTransGen (fun upper lower => lower ∈ list upper) first node
  distinct : (Table.keys graph).Nodup

namespace Closing

variable {start rest : List Text} {graph : Graph} {node : Text}

theorem initial (list : Text → List Text) (start : List Text) : Closing list start start [] :=
  ⟨by simp [Table.get?], by simp, fun _ => Or.inr, fun node member =>
    ⟨node, member.resolve_left (by simp), .refl⟩, List.nodup_nil⟩

theorem skip (closing : Closing list start (node :: rest) graph) (known : node ∈ Table.keys graph) :
    Closing list start rest graph := by
  have settle : ∀ other, other ∈ Table.keys graph ∨ other ∈ node :: rest →
      other ∈ Table.keys graph ∨ other ∈ rest := by
    rintro other (entered | waiting)
    · exact Or.inl entered
    · rcases List.mem_cons.mp waiting with rfl | later
      · exact Or.inl known
      · exact Or.inr later
  constructor
  · exact closing.entries
  · intro upper member other listed
    exact settle other (closing.covered upper member other listed)
  · intro other member
    exact settle other (closing.kept other member)
  · intro other member
    exact closing.reached other (member.imp_right (List.mem_cons_of_mem node))
  · exact closing.distinct

theorem enter (closing : Closing list start (node :: rest) graph) :
    Closing list start
      (rest ++ (list node).filter fun other => ((graph.set node (list node)).get? other).isNone)
      (graph.set node (list node)) := by
  -- what was entered or pending still is
  have settle : ∀ other, other ∈ Table.keys graph ∨ other ∈ node :: rest →
      other ∈ Table.keys (graph.set node (list node)) ∨
        other ∈ rest ++ (list node).filter fun other =>
          ((graph.set node (list node)).get? other).isNone := by
    rintro other (entered | waiting)
    · exact Or.inl (Table.mem_keys_set.mpr (Or.inr entered))
    · rcases List.mem_cons.mp waiting with rfl | later
      · exact Or.inl (Table.mem_keys_set.mpr (Or.inl rfl))
      · exact Or.inr (List.mem_append_left _ later)
  constructor
  · intro other listed found
    rw [Table.get?_set] at found
    split at found
    next same => exact same ▸ (Option.some.inj found).symm
    next => exact closing.entries other listed found
  · intro upper member other listed
    rcases Table.mem_keys_set.mp member with rfl | before
    · -- the new node: what it lists and is not entered has just become pending
      by_cases entered : other ∈ Table.keys (graph.set upper (list upper))
      · exact Or.inl entered
      · refine Or.inr (List.mem_append_right _ (List.mem_filter.mpr ⟨listed, ?_⟩))
        rw [Option.isNone_iff_eq_none, Table.get?_eq_none_iff]
        exact entered
    · exact settle other (closing.covered upper before other listed)
  · intro other member
    exact settle other (closing.kept other member)
  · intro other member
    have origin := closing.reached node (Or.inr List.mem_cons_self)
    rcases member with entered | waiting
    · rcases Table.mem_keys_set.mp entered with rfl | before
      · exact origin
      · exact closing.reached other (Or.inl before)
    · rcases List.mem_append.mp waiting with later | added
      · exact closing.reached other (Or.inr (List.mem_cons_of_mem node later))
      · obtain ⟨first, member, path⟩ := origin
        exact ⟨first, member, path.tail (List.mem_filter.mp added).1⟩
  · exact Table.nodup_keys_set closing.distinct

end Closing

theorem closing_closure {candidates start pending : List Text} {width fuel : Nat} {graph : Graph}
    (bounded : Bounded list candidates width) (inside : pending ⊆ candidates)
    (enough : work candidates width pending graph ≤ fuel)
    (closing : Closing list start pending graph) :
    Closing list start [] (closure list fuel pending graph) := by
  induction fuel generalizing pending graph with
  | zero =>
    cases eq_nil_of_work_le_zero enough
    exact closing
  | succ fuel ih =>
    cases pending with
    | nil => exact closing
    | cons node rest =>
      obtain ⟨here, others⟩ := List.cons_subset.mp inside
      rw [closure]
      split
      next known =>
        have one := work_cons candidates width node rest graph
        exact ih others (by omega) (closing.skip (Table.isSome_get?_iff.mp known))
      next fresh =>
        have less := work_enter rest bounded here (by simpa using fresh)
        refine ih (List.append_subset.mpr ⟨others, ?_⟩) (by omega) closing.enter
        exact List.Subset.trans (List.filter_subset_self _) (bounded.inside node here)

namespace Closing

variable {start : List Text} {graph : Graph} {node : Text}

/-- The entered nodes are those that the first ones lead to. -/
theorem mem_keys_iff (closed : Closing list start [] graph) :
    node ∈ Table.keys graph ↔
      ∃ first ∈ start, ReflTransGen (fun upper lower => lower ∈ list upper) first node := by
  constructor
  · exact fun member => closed.reached node (Or.inl member)
  · rintro ⟨first, member, path⟩
    induction path with
    | refl => exact (closed.kept first member).resolve_right List.not_mem_nil
    | tail _ listed ih => exact (closed.covered _ ih _ listed).resolve_right List.not_mem_nil

theorem dependencies_eq (closed : Closing list start [] graph) (member : node ∈ Table.keys graph) :
    graph.dependencies node = list node := by
  unfold dependencies
  cases found : graph.get? node with
  | none => exact absurd member (Table.get?_eq_none_iff.mp found)
  | some listed => rw [closed.entries node listed found, Option.getD_some]

/-- In a closed graph a node depends on what it lists. -/
theorem dependsOn_iff (closed : Closing list start [] graph) (member : node ∈ Table.keys graph)
    {other : Text} : graph.DependsOn node other ↔ other ∈ list node := by
  rw [DependsOn, closed.dependencies_eq member]

/-- Every node that is mentioned in a closed graph is entered. -/
theorem mem_keys_of_mem_nodes (closed : Closing list start [] graph) (inside : node ∈ graph.nodes) :
    node ∈ Table.keys graph := by
  obtain ⟨⟨upper, listed⟩, entry, place⟩ := List.mem_flatMap.mp inside
  have key : upper ∈ Table.keys graph := List.mem_map_of_mem entry
  rcases List.mem_cons.mp place with rfl | below
  · exact key
  · rw [closed.entries upper listed (Table.get?_of_mem closed.distinct entry)] at below
    exact (closed.covered upper key node below).resolve_right List.not_mem_nil

theorem mem_keys_of_dependsOn (closed : Closing list start [] graph)
    (member : node ∈ Table.keys graph) {other : Text}
    (depends : ReflTransGen graph.DependsOn node other) : other ∈ Table.keys graph := by
  induction depends with
  | refl => exact member
  | tail _ direct ih =>
    have listed := (closed.dependsOn_iff ih).mp direct
    exact (closed.covered _ ih _ listed).resolve_right List.not_mem_nil

/-- A closed graph is sorted into the list of its keys. -/
theorem sorted (closed : Closing list start [] graph) {order : List Text}
    (done : graph.topologicalOrder = .ok order) :
    graph.Sorted order ∧ ∀ node, node ∈ order ↔ node ∈ Table.keys graph := by
  have visits := graph.visits_topologicalOrder
  rw [done] at visits
  obtain ⟨sorted, -, included, origin⟩ := visits
  refine ⟨sorted, fun node => ⟨fun member => ?_, fun key => included key⟩⟩
  obtain ⟨-, first, key, depends⟩ := (origin node member).resolve_left List.not_mem_nil
  exact closed.mem_keys_of_dependsOn key depends

theorem cyclic (closed : Closing list start [] graph)
    (failed : graph.topologicalOrder = .error node) :
    node ∈ Table.keys graph ∧ TransGen graph.DependsOn node node := by
  have visits := graph.visits_topologicalOrder
  rw [failed] at visits
  obtain ⟨cycle, first, key, depends⟩ := visits
  exact ⟨closed.mem_keys_of_dependsOn key depends, cycle⟩

end Closing

end CHeader.Graph
