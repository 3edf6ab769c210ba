import CHeader.Proofs.FirstError
import CHeader.Proofs.Graph.Expansion
import CHeader.Proofs.Resolver.Order

/-!
# The compilation order is a post-order of the includes

Discovery enters a header when it meets it, so in the list of a header each included header is
followed by what lies below it: the list is an expansion of what the header includes. The keys of the
closed graph are an expansion of the roots in the same way. So sorting the transitive lists is the
plain depth-first walk over the includes, whether it ends with an order or at a header on a cycle.
-/
namespace CHeader

open Text Relation

/-! ## Discovery in order -/

namespace Scope

variable {scope : Scope} {path text : Text} {targets before middle after : List Text}

/-- What a header includes, in the order of its names; a header that cannot be read includes nothing. -/
def included (scope : Scope) (header : Text) : List Text :=
  match readHeader scope.tree header with
  | .error _ => []
  | .ok text => (Include.extract text).filterMap (scope.locate? (directoryOf header))

/-- What a header adds in meeting some targets: they are expanded by what lies below them. -/
structure Adds (scope : Scope) (path : Text) (targets before added : List Text) : Prop where
  reached : ∀ header ∈ added, TransGen scope.Includes path header
  expansion : Graph.Expansion (TransGen scope.Includes) before targets added

theorem Adds.append {more added later : List Text} (first : scope.Adds path targets before added)
    (second : scope.Adds path more (before ++ added) later) :
    scope.Adds path (targets ++ more) before (added ++ later) := by
  refine ⟨fun header member => ?_, first.expansion.append second.expansion⟩
  exact (List.mem_append.mp member).elim (first.reached header) (second.reached header)

/-- A target is met, and what lies below it after it. -/
theorem Adds.meet {target : Text} {lower : List Text} (includes : scope.Includes path target)
    (reached : ∀ header ∈ lower, TransGen scope.Includes target header) :
    scope.Adds path [target] before (target :: lower) := by
  refine ⟨fun header member => ?_, .head ?_⟩
  · rcases List.mem_cons.mp member with rfl | below
    · exact .single includes
    · exact .head includes (reached header below)
  · exact .of_under fun header member => ⟨target, List.mem_cons_self, reached header member⟩

theorem adds_meetName {fuel : Nat} {chain : List Text} {name : Text} (d : Discovery)
    (readable : readHeader scope.tree path = .ok text) (member : name ∈ Include.extract text)
    (onward : ∀ target text d, readHeader scope.tree target = .ok text →
      ∃ added, (scope.follow fuel (path :: chain) target text d).found = d.found ++ added ∧
        ∀ header ∈ added, TransGen scope.Includes target header) :
    ∃ added, (scope.meetName fuel chain path d name).found = d.found ++ added ∧
      scope.Adds path (scope.locate? (directoryOf path) name).toList d.found added := by
  unfold meetName
  cases located : scope.locate? (directoryOf path) name with
  | none => exact ⟨[], (List.append_nil _).symm, by simp, .nil _⟩
  | some target =>
    have includes : scope.Includes path target := ⟨text, readable, name, member, located⟩
    dsimp only [Option.toList_some]
    split
    next known => exact ⟨[], (List.append_nil _).symm, by simp, .known known (.nil _)⟩
    next =>
      -- a new target is met; it is followed unless it is being followed or cannot be read
      split
      next => exact ⟨[target], rfl, .meet includes (by simp)⟩
      next =>
        cases reading : readHeader scope.tree target with
        | error cause => exact ⟨[target], rfl, .meet includes (by simp)⟩
        | ok text =>
          obtain ⟨lower, found, reached⟩ :=
            onward target text ((d.meet target).note (.opened target)) reading
          refine ⟨target :: lower, ?_, .meet includes reached⟩
          dsimp only
          rw [found]
          simp [Discovery.meet, Discovery.note]

theorem adds_foldl {fuel : Nat} {chain names : List Text}
    (step : ∀ name ∈ names, ∀ d,
      ∃ added, (scope.meetName fuel chain path d name).found = d.found ++ added ∧
        scope.Adds path (scope.locate? (directoryOf path) name).toList d.found added)
    (d : Discovery) :
    ∃ added, (names.foldl (scope.meetName fuel chain path) d).found = d.found ++ added ∧
      scope.Adds path (names.filterMap (scope.locate? (directoryOf path))) d.found added := by
  induction names generalizing d with
  | nil => exact ⟨[], (List.append_nil _).symm, by simp, .nil _⟩
  | cons name names ih =>
    obtain ⟨here, others⟩ := List.forall_mem_cons.mp step
    obtain ⟨added, found, adds⟩ := here d
    obtain ⟨later, foundLater, addsLater⟩ := ih others (scope.meetName fuel chain path d name)
    rw [found] at foundLater addsLater
    refine ⟨added ++ later, by rw [List.foldl_cons, foundLater, List.append_assoc], ?_⟩
    -- a name that is found nowhere adds no target
    have both := adds.append addsLater
    cases located : scope.locate? (directoryOf path) name <;> simpa [located] using both

/-- Whatever the depth allowed, following a header adds what lies below it. -/
theorem reached_follow (fuel : Nat) (chain : List Text) (d : Discovery)
    (readable : readHeader scope.tree path = .ok text) :
    ∃ added, (scope.follow fuel chain path text d).found = d.found ++ added ∧
      ∀ header ∈ added, TransGen scope.Includes path header := by
  induction fuel generalizing chain path text d with
  | zero => exact ⟨[], (List.append_nil _).symm, by simp⟩
  | succ fuel ih =>
    obtain ⟨added, found, adds⟩ := adds_foldl
      (fun name member d => adds_meetName d readable member
        fun target text d reading => ih (path :: chain) d reading) d
    exact ⟨added, found, adds.reached⟩

theorem discover_expansion {d : Discovery} (discovered : scope.discover path = .ok d) :
    Graph.Expansion (TransGen scope.Includes) [] (scope.included path) d.found := by
  unfold discover at discovered
  cases readable : readHeader scope.tree path with
  | error cause =>
    rw [readable] at discovered
    cases discovered
  | ok text =>
    rw [readable] at discovered
    cases discovered
    have step : ∀ name ∈ Include.extract text, ∀ d, ∃ added,
        (scope.meetName (scope.tree.entries.length + 1) [] path d name).found = d.found ++ added ∧
          scope.Adds path (scope.locate? (directoryOf path) name).toList d.found added := by
      intro name member d
      apply adds_meetName d readable member
      intro target text d reading
      exact reached_follow (scope.tree.entries.length + 1) [path] d reading
    obtain ⟨added, found, adds⟩ := adds_foldl step (Discovery.empty.note (.opened path))
    rw [included, readable, follow_succ, found]
    exact adds.expansion

end Scope

/-! ## The closed graph in order -/

namespace Resolver

variable {tree : FileTree} {r : Resolver} {headers searchPaths paths : List Text}
  {roots : Graph} {node : Text}

theorem listOf_expansion (answered : r.Answered tree searchPaths roots)
    (own : tree.canonical node = .ok node) :
    Graph.Expansion (TransGen (r.scope tree searchPaths).Includes) []
      ((r.scope tree searchPaths).included node) (r.listOf tree searchPaths roots node) := by
  rcases listOf_cases answered node with known | ⟨⟨cause, failed⟩, nothing⟩
  · obtain ⟨path, key, d, keyed, discovered, found⟩ := answer_eq_ok known
    have same := keyed.1
    rw [own, Except.ok.injEq] at same
    rw [← found, same]
    exact Scope.discover_expansion discovered
  · -- a header without an answer cannot be read, and includes nothing
    rw [nothing]
    cases readable : readHeader tree node with
    | error cause =>
      have barren : (r.scope tree searchPaths).included node = [] := by
        rw [Scope.included, show readHeader (r.scope tree searchPaths).tree node = _ from readable]
      rw [barren]
      exact .nil []
    | ok text =>
      obtain ⟨found, known⟩ := r.answer_of_readable searchPaths ⟨own, own⟩ readable
      rw [failed] at known
      cases known

theorem rootLists_expansion {graph : Graph} (below : Text → Text → Prop)
    (canonical : headers.mapM tree.canonical = .ok paths)
    (listed : r.rootLists tree searchPaths headers graph = .ok roots) :
    ∃ added, Table.keys roots = Table.keys graph ++ added ∧
      Graph.Expansion below (Table.keys graph) paths added := by
  induction headers generalizing graph paths with
  | nil =>
    cases canonical
    cases listed
    exact ⟨[], (List.append_nil _).symm, .nil _⟩
  | cons header rest ih =>
    obtain ⟨root, others, here, later, rfl⟩ := mapM_cons_eq_ok canonical
    rw [rootLists, here] at listed
    dsimp only at listed
    split at listed
    · cases listed
    next found answered =>
      obtain ⟨added, keys, expansion⟩ := ih later listed
      -- a root that is listed twice keeps its first place
      by_cases known : root ∈ Table.keys graph
      · rw [Table.keys_set_of_mem known] at keys expansion
        exact ⟨added, keys, .known known expansion⟩
      · rw [Table.keys_set_of_not_mem known] at keys expansion
        refine ⟨root :: added, by rw [keys, List.append_assoc, List.singleton_append], ?_⟩
        exact .head (expansion.mono (by simp))

theorem closedGraph_expands (settled : ∀ header ∈ headers, tree.Settled header)
    (listed : r.rootLists tree searchPaths headers [] = .ok roots) :
    (r.closedGraph tree searchPaths roots roots.nodes).Expands
      (r.scope tree searchPaths).included := by
  have answered := (rootLists_ok listed answered_nil).1
  have closed := closing_of_rootLists listed
  have reading := reading_closedGraph settled listed
  intro node inside
  have key := closed.mem_keys_of_mem_nodes inside
  obtain ⟨header, asked, root, canonical, path⟩ := (reading.keys node).mp key
  have own := (r.scope tree searchPaths).canonical_of_reflTransGen
    (settled header asked root canonical) path
  rw [closed.dependencies_eq key]
  refine (listOf_expansion answered own).imp fun upper member lower below => ?_
  -- what the node lists is entered as well, and lists what lies below it
  have upperKey := (closed.covered node key upper member).resolve_right List.not_mem_nil
  exact (reading.lists upper upperKey lower).mpr below

theorem closedGraph_keys (canonical : headers.mapM tree.canonical = .ok paths)
    (listed : r.rootLists tree searchPaths headers [] = .ok roots) :
    Graph.Expansion (r.closedGraph tree searchPaths roots roots.nodes).DependsOn [] paths
      (Table.keys (r.closedGraph tree searchPaths roots roots.nodes)) := by
  have answered := (rootLists_ok listed answered_nil).1
  have closed := closing_of_rootLists listed
  obtain ⟨added, keys, expansion⟩ := rootLists_expansion
    (fun upper lower => lower ∈ r.listOf tree searchPaths roots upper) canonical listed
  rw [Table.keys_nil, List.nil_append] at keys
  rw [Table.keys_nil, ← keys] at expansion
  have nodes := expansion.nodes fun entry member other below => by
    have known := answered entry.1 entry.2 member
    rcases listOf_cases answered entry.1 with same | ⟨⟨cause, failed⟩, -⟩
    · rw [known, Except.ok.injEq] at same
      exact same ▸ below
    · rw [known] at failed
      cases failed
  obtain ⟨entered, whole, order⟩ := Graph.closure_keys
    (bounded_listOf answered.ofFiles roots.nodes) (List.subset_append_left _ _)
    (work_le_closingSteps tree roots.nodes .empty) nodes
  rw [Table.keys_nil, List.nil_append] at whole
  rw [closedGraph, whole]
  refine order.imp fun upper member lower listed => ?_
  exact (closed.dependsOn_iff (by rwa [closedGraph, whole])).mpr listed

/-! ## The order -/

variable (r searchPaths) in
theorem compilationOrder_postOrder
    (readable : ∀ header ∈ headers, ∃ text, readHeader tree header = .ok text) :
    ∃ paths outcome, headers.mapM tree.canonical = .ok paths ∧
      (r.compilationOrder tree headers searchPaths .empty).1 = outcome.mapError .circular ∧
      ∀ other, Graph.PostOrder (r.scope tree searchPaths).included paths other ↔
        other = outcome := by
  have settled : ∀ header ∈ headers, tree.Settled header := by
    intro header member
    obtain ⟨text, reading⟩ := readable header member
    exact FileTree.settled_of_readable reading
  obtain ⟨paths, canonical⟩ : ∃ paths, headers.mapM tree.canonical = .ok paths :=
    mapM_eq_ok fun header member => by
      obtain ⟨text, reading⟩ := readable header member
      obtain ⟨path, canonical, -⟩ := readHeader_canonical reading
      exact ⟨path, canonical⟩
  obtain ⟨roots, listed⟩ := r.rootLists_of_readable searchPaths readable []
  refine ⟨paths, (r.closedGraph tree searchPaths roots roots.nodes).topologicalOrder, canonical, ?_,
    Graph.postOrder_topologicalOrder (closedGraph_expands settled listed)
      (closedGraph_keys canonical listed)⟩
  rw [compilationOrder_settled settled, orderOf, graphOf, listed]
  simp only [↓reduceIte]
  cases (r.closedGraph tree searchPaths roots roots.nodes).topologicalOrder <;> rfl

/-- The walk from one of two headers that include each other ends when it meets that one again. -/
theorem compilationOrder_postOrder_mutual :
    (∀ header ∈ ["a.h".toList], ∃ text, readHeader mutualTree header = .ok text) ∧
      Graph.PostOrder ((Resolver.mk []).scope mutualTree []).included ["/p/a.h".toList]
        (.error "/p/a.h".toList) := by
  have readable : ∀ header ∈ ["a.h".toList], ∃ text, readHeader mutualTree header = .ok text := by
    intro header member
    cases List.mem_singleton.mp member
    exact ⟨"#include \"b.h\"\n".toList, by cbv⟩
  obtain ⟨paths, outcome, canonical, run, walks⟩ :=
    compilationOrder_postOrder ⟨[]⟩ [] readable
  have place : ["a.h".toList].mapM mutualTree.canonical = .ok ["/p/a.h".toList] := by cbv
  have circular : ((Resolver.mk []).compilationOrder mutualTree ["a.h".toList] [] .empty).1 =
      .error (.circular "/p/a.h".toList) := by cbv
  rw [place, Except.ok.injEq] at canonical
  refine ⟨readable, canonical ▸ (walks _).mpr ?_⟩
  rw [circular] at run
  cases outcome with
  | error header =>
    cases run
    rfl
  | ok order => cases run

end Resolver

end CHeader
