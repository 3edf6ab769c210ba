import CHeader.Proofs.Graph.Closure
import CHeader.Proofs.Resolver.Memory

/-!
# Graphs and orders of a truthful session

In a truthful session the graph of some headers is made of the answers about them. The closed graph
is the closure of these lists, and the number of steps allowed does not matter, since no more nodes
can be met than the first ones and the files of the tree.
-/
namespace CHeader.Resolver

open Text

variable {tree : FileTree} {r : Resolver} {asked : Text → Prop} {s : Session}
  {headers searchPaths : List Text} {roots lists : Graph}

/-! ## The headers that were asked for -/

/-- The lists of the headers that were asked for, entered in a graph. -/
def rootLists (r : Resolver) (tree : FileTree) (searchPaths : List Text) :
    (headers : List Text) → Graph → Except ResolveError Graph
  | [], graph => .ok graph
  | header :: rest, graph =>
    match tree.canonical header with
    | .error cause => .error (.path cause)
    | .ok root =>
      match r.answer tree searchPaths root with
      | .error cause => .error cause
      | .ok found => rootLists r tree searchPaths rest (graph.set root found)

theorem rootGraph_truthful (searchPaths : List Text) (agree : r.KeysAgree tree asked)
    (truthful : r.Truthful tree asked s)
    (members : ∀ header ∈ headers, ∀ root, tree.canonical header = .ok root → asked root)
    (graph : Graph) :
    (r.rootGraph tree searchPaths headers graph s).1 = r.rootLists tree searchPaths headers graph ∧
      r.Truthful tree asked (r.rootGraph tree searchPaths headers graph s).2 := by
  induction headers generalizing graph s with
  | nil => exact ⟨rfl, truthful⟩
  | cons header rest ih =>
    rw [rootGraph, rootLists]
    cases canonical : tree.canonical header with
    | error cause => exact ⟨rfl, truthful⟩
    | ok root =>
      have member := members header List.mem_cons_self root canonical
      obtain ⟨same, after⟩ :=
        dependencies_truthful searchPaths agree truthful member
      dsimp only
      rw [← same]
      rcases asking : r.dependencies tree root searchPaths s with ⟨cause | found, later⟩
      · rw [asking] at after
        exact ⟨rfl, after⟩
      · rw [asking] at after
        exact ih after (fun other later => members other (List.mem_cons_of_mem header later)) _

/-- What the graph lists are answers. -/
def Answered (r : Resolver) (tree : FileTree) (searchPaths : List Text) (graph : Graph) : Prop :=
  ∀ node found, (node, found) ∈ graph → r.answer tree searchPaths node = .ok found

theorem answered_nil : r.Answered tree searchPaths [] := by
  intro node found member
  cases member

theorem rootLists_ok {graph : Graph}
    (listed : r.rootLists tree searchPaths headers graph = .ok roots)
    (before : r.Answered tree searchPaths graph) :
    r.Answered tree searchPaths roots ∧
      (∀ node, node ∈ Table.keys roots ↔
        node ∈ Table.keys graph ∨ ∃ header ∈ headers, tree.canonical header = .ok node) := by
  induction headers generalizing graph with
  | nil =>
    cases listed
    exact ⟨before, by simp⟩
  | cons header rest ih =>
    rw [rootLists] at listed
    split at listed
    · cases listed
    next root canonical =>
      split at listed
      · cases listed
      next found answered =>
        have entered : r.Answered tree searchPaths (graph.set root found) := by
          intro node known member
          rcases Table.eq_or_mem_of_mem_set member with same | old
          · cases same
            exact answered
          · exact before node known old
        -- the keys are those before, this root, and those of the rest
        obtain ⟨answers, keys⟩ := ih listed entered
        refine ⟨answers, fun node => ?_⟩
        rw [keys, Table.mem_keys_set]
        simp only [List.mem_cons, exists_eq_or_imp, canonical, Except.ok.injEq]
        tauto

/-! ## The headers that were met -/

/-- What a node of the closed graph lists: what is said of it already, or else the answer. A header
that was met and cannot be read lists nothing. -/
def listOf (r : Resolver) (tree : FileTree) (searchPaths : List Text) (lists : Graph)
    (node : Text) : List Text :=
  match lists.get? node with
  | some known => known
  | none =>
    match r.answer tree searchPaths node with
    | .ok found => found
    | .error _ => []

theorem listOf_cases (answered : r.Answered tree searchPaths lists) (node : Text) :
    r.answer tree searchPaths node = .ok (r.listOf tree searchPaths lists node) ∨
      (∃ cause, r.answer tree searchPaths node = .error cause) ∧
        r.listOf tree searchPaths lists node = [] := by
  unfold listOf
  split
  next known present => exact Or.inl (answered node known (Table.mem_of_get? present))
  next =>
    split
    next found known => exact Or.inl known
    next cause failed => exact Or.inr ⟨⟨cause, failed⟩, rfl⟩

/-- The lists of the graph hold files, each once. -/
def OfFiles (tree : FileTree) (graph : Graph) : Prop :=
  ∀ node found, (node, found) ∈ graph → found.Nodup ∧ ∀ target ∈ found, tree.HasFile target

theorem Answered.ofFiles (answered : r.Answered tree searchPaths lists) : OfFiles tree lists :=
  fun node found member => answer_hasFile (answered node found member)

theorem listOf_hasFile (r : Resolver) (searchPaths : List Text) (files : OfFiles tree lists)
    (node : Text) :
    (r.listOf tree searchPaths lists node).Nodup ∧
      ∀ target ∈ r.listOf tree searchPaths lists node, tree.HasFile target := by
  unfold listOf
  split
  next known present => exact files node known (Table.mem_of_get? present)
  next =>
    split
    next found known => exact answer_hasFile known
    next => exact ⟨List.nodup_nil, fun target member => absurd member List.not_mem_nil⟩

/-- In a truthful session a root or a file that is met gives what it lists. -/
theorem metDependencies_truthful (searchPaths : List Text) (roots : Graph)
    (agree : r.KeysAgree tree asked)
    (truthful : r.Truthful tree asked s) {node : Text}
    (place : node ∈ Table.keys roots ∨ tree.HasFile node ∧ asked node) :
    (r.metDependencies tree searchPaths roots node s).1 =
        .ok (r.listOf tree searchPaths roots node) ∧
      r.Truthful tree asked (r.metDependencies tree searchPaths roots node s).2 := by
  unfold metDependencies listOf
  cases known : roots.get? node with
  | some found => exact ⟨rfl, truthful⟩
  | none =>
    obtain ⟨file, member⟩ := place.resolve_left (Table.get?_eq_none_iff.mp known)
    obtain ⟨same, after⟩ :=
      dependencies_truthful searchPaths agree truthful member
    -- a file has a canonical path, so that asking for it can only fail in reading it
    have answered := r.answer_of_keyed searchPaths file.keyed
    rcases asking : r.dependencies tree node searchPaths s with ⟨result, later⟩
    rw [asking, answered] at same
    rw [asking] at after
    dsimp only at same ⊢
    cases discovered : (r.scope tree searchPaths).discover node with
    | error cause =>
      rw [discovered] at same answered
      subst same
      rw [answered]
      exact ⟨rfl, after.note _⟩
    | ok d =>
      rw [discovered] at same answered
      subst same
      rw [answered]
      exact ⟨rfl, after⟩

/-- If every header in place gives what it lists, and the session stays as it has to be, then the
whole graph is the closure of the lists. -/
theorem closeGraph_closure {holds : Session → Prop} {place : Text → Prop}
    {list : Text → List Text}
    (step : ∀ node s, place node → holds s →
      (r.metDependencies tree searchPaths roots node s).1 = .ok (list node) ∧
        holds (r.metDependencies tree searchPaths roots node s).2)
    (inside : ∀ node, ∀ other ∈ list node, place other) (before : holds s) (fuel : Nat)
    {pending : List Text} (graph : Graph) (places : ∀ node ∈ pending, place node) :
    (r.closeGraph tree searchPaths roots fuel pending graph s).1 =
        .ok (Graph.closure list fuel pending graph) ∧
      holds (r.closeGraph tree searchPaths roots fuel pending graph s).2 := by
  induction fuel generalizing pending graph s with
  | zero => exact ⟨rfl, before⟩
  | succ fuel ih =>
    cases pending with
    | nil => exact ⟨rfl, before⟩
    | cons node rest =>
      obtain ⟨here, others⟩ := List.forall_mem_cons.mp places
      rw [closeGraph, Graph.closure]
      split
      next => exact ih before graph others
      next =>
        obtain ⟨same, after⟩ := step node s here before
        rcases asking : r.metDependencies tree searchPaths roots node s with ⟨result, later⟩
        rw [asking] at same after
        cases same
        refine ih after _ fun other member => ?_
        rcases List.mem_append.mp member with waiting | added
        · exact others other waiting
        · exact inside node other (List.mem_filter.mp added).1

/-! ## The steps allowed suffice -/

/-- Everything that can be met from the first nodes. -/
def candidates (tree : FileTree) (start : List Text) : List Text :=
  start ++ (Table.keys tree.entries).map FileTree.locationText

theorem bounded_of_hasFile {list : Text → List Text}
    (files : ∀ node, (list node).Nodup ∧ ∀ target ∈ list node, tree.HasFile target)
    (start : List Text) : Graph.Bounded list (candidates tree start) tree.entries.length := by
  refine ⟨fun node _ target listed => ?_, fun node _ => ?_⟩
  · exact List.mem_append_right _ (FileTree.hasFile_mem ((files node).2 target listed))
  · exact FileTree.length_le_of_hasFile (files node).1 (files node).2

theorem bounded_listOf (files : OfFiles tree lists) (start : List Text) :
    Graph.Bounded (r.listOf tree searchPaths lists) (candidates tree start)
      tree.entries.length :=
  bounded_of_hasFile (r.listOf_hasFile searchPaths files) start

theorem work_le_closingSteps (tree : FileTree) (start : List Text) (s : Session) :
    Graph.work (candidates tree start) tree.entries.length start [] ≤
      closingSteps tree start s := by
  obtain ⟨kept, steps⟩ : ∃ kept, closingSteps tree start s =
      (start.length + tree.entries.length + kept + 1) *
        (start.length + tree.entries.length + kept + 1) := ⟨_, rfl⟩
  have fresh := List.length_filter_le
    (fun node => (Table.get? node ([] : Graph)).isNone) (candidates tree start)
  have met : (candidates tree start).length = start.length + tree.entries.length := by
    simp [candidates, Table.keys]
  rw [met] at fresh
  have entered := Nat.mul_le_mul_left tree.entries.length fresh
  have square := Nat.mul_le_mul
    (show tree.entries.length + 1 ≤ start.length + tree.entries.length + kept + 1 by omega)
    (show start.length + tree.entries.length ≤
      start.length + tree.entries.length + kept + 1 by omega)
  rw [Nat.succ_mul] at square
  rw [Graph.work, steps]
  omega

/-- The graph in which the first nodes and all that they lead to are entered. -/
def closedGraph (r : Resolver) (tree : FileTree) (searchPaths : List Text) (lists : Graph)
    (start : List Text) : Graph :=
  Graph.closure (r.listOf tree searchPaths lists) (closingSteps tree start .empty) start []

theorem closure_eq_closedGraph (files : OfFiles tree lists) (start : List Text) (s : Session) :
    Graph.closure (r.listOf tree searchPaths lists) (closingSteps tree start s) start [] =
      r.closedGraph tree searchPaths lists start :=
  Graph.closure_allowance (bounded_listOf files start) (List.subset_append_left _ _)
    (work_le_closingSteps tree start s) (work_le_closingSteps tree start .empty)

theorem closing_closedGraph (r : Resolver) (searchPaths : List Text) (files : OfFiles tree lists)
    (start : List Text) :
    Graph.Closing (r.listOf tree searchPaths lists) start []
      (r.closedGraph tree searchPaths lists start) :=
  Graph.closing_closure (bounded_listOf files start) (List.subset_append_left _ _)
    (work_le_closingSteps tree start .empty) (Graph.Closing.initial _ _)

/-! ## Whole answers -/

/-- The graph that the answers make. -/
def graphOf (r : Resolver) (tree : FileTree) (headers searchPaths : List Text) (closed : Bool) :
    Except ResolveError Graph :=
  match r.rootLists tree searchPaths headers [] with
  | .error cause => .error cause
  | .ok roots => .ok (if closed then r.closedGraph tree searchPaths roots roots.nodes else roots)

theorem graph_truthful (searchPaths : List Text) (agree : r.KeysAgree tree asked)
    (files : ∀ path, tree.HasFile path → asked path) (truthful : r.Truthful tree asked s)
    (members : ∀ header ∈ headers, ∀ root, tree.canonical header = .ok root → asked root)
    (closed : Bool) :
    (r.graph tree headers searchPaths closed s).1 = r.graphOf tree headers searchPaths closed ∧
      r.Truthful tree asked (r.graph tree headers searchPaths closed s).2 := by
  obtain ⟨same, after⟩ := rootGraph_truthful searchPaths agree truthful members []
  unfold graph graphOf
  rcases asking : r.rootGraph tree searchPaths headers [] s with ⟨cause | roots, later⟩
  · rw [asking] at same after
    rw [← same]
    exact ⟨rfl, after⟩
  · rw [asking] at same after
    rw [← same]
    dsimp only
    cases closed with
    | false => exact ⟨rfl, after⟩
    | true =>
      -- the allowance depends on what is remembered, the closure does not
      have answered := (rootLists_ok same.symm answered_nil).1
      simp only [↓reduceIte]
      rw [← closure_eq_closedGraph answered.ofFiles roots.nodes later]
      refine closeGraph_closure
        (fun node s place truthful => metDependencies_truthful searchPaths roots agree truthful
          (place.imp_right fun file => ⟨file, files node file⟩))
        (fun node other member =>
          Or.inr ((r.listOf_hasFile searchPaths answered.ofFiles node).2 other member))
        after _ [] fun node member => ?_
      obtain ⟨⟨root, found⟩, entry, listed⟩ := List.mem_flatMap.mp member
      have key : root ∈ Table.keys roots := List.mem_map_of_mem entry
      rcases List.mem_cons.mp listed with rfl | below
      · exact Or.inl key
      · exact Or.inr ((answer_hasFile (answered root found entry)).2 node below)

/-- The order that the answers make. -/
def orderOf (r : Resolver) (tree : FileTree) (headers searchPaths : List Text) :
    Except ResolveError (List Text) :=
  match r.graphOf tree headers searchPaths true with
  | .error cause => .error cause
  | .ok graph =>
    match graph.topologicalOrder with
    | .error header => .error (.circular header)
    | .ok order => .ok order

theorem compilationOrder_truthful (searchPaths : List Text) (agree : r.KeysAgree tree asked)
    (files : ∀ path, tree.HasFile path → asked path) (truthful : r.Truthful tree asked s)
    (members : ∀ header ∈ headers, ∀ root, tree.canonical header = .ok root → asked root) :
    (r.compilationOrder tree headers searchPaths s).1 = r.orderOf tree headers searchPaths ∧
      r.Truthful tree asked (r.compilationOrder tree headers searchPaths s).2 := by
  obtain ⟨same, after⟩ := graph_truthful searchPaths agree files truthful members
    true
  unfold compilationOrder orderOf
  rw [← same]
  rcases asking : r.graph tree headers searchPaths true s with ⟨cause | graph, later⟩
  · rw [asking] at after
    exact ⟨rfl, after⟩
  · rw [asking] at after
    dsimp only
    cases graph.topologicalOrder with
    | error header => exact ⟨rfl, after⟩
    | ok order => exact ⟨rfl, after.note _⟩

end CHeader.Resolver
