import CHeader.Proofs.Graph.Expansion
import CHeader.Proofs.Resolver.Recall

/-!
# More roots

Roots that are added behind others are entered in the graph behind them. If what is recalled of the
files stays the same, the order is one walk over one set of lists, and the walk from the first roots
comes first. A root that is listed again, or under another spelling, is the same node and is answered
from the memory, which nothing but an event tells.
-/
namespace CHeader.Resolver

open Text

variable {tree : FileTree} {r : Resolver} {headers searchPaths : List Text} {s t after : Session}
  {roots graph : Graph} {header root : Text}

/-! ## The graph of more roots -/

theorem rootGraph_append (r : Resolver) (tree : FileTree) (searchPaths first others : List Text)
    (graph : Graph) (s : Session) :
    r.rootGraph tree searchPaths (first ++ others) graph s =
      match r.rootGraph tree searchPaths first graph s with
      | (.error cause, later) => (.error cause, later)
      | (.ok roots, later) => r.rootGraph tree searchPaths others roots later := by
  induction first generalizing graph s with
  | nil => rfl
  | cons header rest ih =>
    rw [List.cons_append, rootGraph, rootGraph]
    cases tree.canonical header with
    | error cause => rfl
    | ok root =>
      dsimp only
      rcases r.dependencies tree root searchPaths s with ⟨cause | found, later⟩
      · rfl
      · exact ih _ later

theorem rootGraph_append_ok {first others : List Text}
    (built : r.rootGraph tree searchPaths (first ++ others) graph s = (.ok roots, after)) :
    ∃ before between, r.rootGraph tree searchPaths first graph s = (.ok before, between) ∧
      r.rootGraph tree searchPaths others before between = (.ok roots, after) := by
  rw [rootGraph_append] at built
  rcases building : r.rootGraph tree searchPaths first graph s with ⟨cause | before, between⟩
  · rw [building] at built
    cases built
  · rw [building] at built
    exact ⟨before, between, rfl, built⟩

/-! ## The order is a walk from the roots -/

/-- Lists of files that say of the roots and of what is recalled of the files what there is to say. -/
structure Lists (r : Resolver) (tree : FileTree) (searchPaths : List Text)
    (list : Text → List Text) (roots : Graph) (s : Session) : Prop where
  known : ∀ root found, (root, found) ∈ roots → list root = found
  recalls : r.Recalls tree searchPaths list s
  files : ∀ node, (list node).Nodup ∧ ∀ target ∈ list node, tree.HasFile target

theorem lists_listed (grows : r.Grows tree [] s.cache) (rooted : Rooted tree searchPaths roots s) :
    r.Lists tree searchPaths (r.listed tree searchPaths roots s.cache) roots s :=
  ⟨fun _ _ member => rooted.listed_eq r s.cache member, rooted.recalls_listed r,
    listed_hasFile grows rooted⟩

/-- What lists more roots lists fewer, if entering the others leaves what is recalled. -/
theorem Lists.front {list : Text → List Text} {before : Graph} {others : List Text}
    (lists : r.Lists tree searchPaths list roots after)
    (keeps : ∀ header ∈ others, ∀ root, tree.canonical header = .ok root →
      r.KeepsOwn tree searchPaths root)
    (built : r.rootGraph tree searchPaths others before s = (.ok roots, after))
    (kept : before <+: roots) : r.Lists tree searchPaths list before s := by
  refine ⟨fun root found member => lists.known root found (kept.subset member),
    fun node file => ?_, lists.files⟩
  have same := rootGraph_recalled keeps before s file
  rw [built] at same
  exact same.symm.trans (lists.recalls node file)

theorem compilationOrder_ok_iff {list : Text → List Text} {order : List Text}
    (built : r.rootGraph tree searchPaths headers [] s = (.ok roots, after))
    (lists : r.Lists tree searchPaths list roots after) :
    (r.compilationOrder tree headers searchPaths s).1 = .ok order ↔
      Graph.PostOrder list (Table.keys roots) (.ok order) := by
  have places : ∀ node ∈ roots.nodes, node ∈ Table.keys roots ∨ tree.HasFile node := by
    intro node member
    obtain ⟨⟨root, found⟩, entry, inside⟩ := List.mem_flatMap.mp member
    rcases List.mem_cons.mp inside with rfl | below
    · exact Or.inl (List.mem_map_of_mem entry)
    · rw [← lists.known root found entry] at below
      exact Or.inr ((lists.files root).2 node below)
  obtain ⟨closed, -⟩ := closeGraph_closure
    (fun node s place (recalls : r.Recalls tree searchPaths list s) =>
      recalls.metDependencies lists.known place)
    (fun node other member => Or.inr ((lists.files node).2 other member))
    lists.recalls (closingSteps tree roots.nodes after) [] places
  have whole : (r.graph tree headers searchPaths true s).1 =
      .ok (Graph.closure list (closingSteps tree roots.nodes after) roots.nodes []) := by
    simp only [graph, built, ↓reduceIte]
    exact closed
  -- the allowance depends on the memory, and the walk over the lists does not
  rw [Graph.postOrder_closure (bounded_of_hasFile lists.files roots.nodes)
    (List.subset_append_left _ _) (work_le_closingSteps tree roots.nodes after)
    fun entry member other inside => (lists.known entry.1 entry.2 member).symm ▸ inside]
  unfold compilationOrder
  rcases building : r.graph tree headers searchPaths true s with ⟨result, later⟩
  rw [building] at whole
  cases whole
  dsimp only
  cases (Graph.closure list (closingSteps tree roots.nodes after) roots.nodes []).topologicalOrder with
  | error header => simp
  | ok sorted => simp [eq_comm]

theorem rootGraph_of_ok {order : List Text}
    (done : (r.compilationOrder tree headers searchPaths s).1 = .ok order) :
    ∃ roots after, r.rootGraph tree searchPaths headers [] s = (.ok roots, after) := by
  rcases building : r.rootGraph tree searchPaths headers [] s with ⟨cause | roots, after⟩
  · simp only [compilationOrder, graph, building] at done
    cases done
  · exact ⟨roots, after, rfl⟩

theorem compilationOrder_front {first others order : List Text}
    (keeps : ∀ header ∈ others, ∀ root, tree.canonical header = .ok root →
      r.KeepsOwn tree searchPaths root)
    (done : (r.compilationOrder tree (first ++ others) searchPaths .empty).1 = .ok order) :
    ∃ front, (r.compilationOrder tree first searchPaths .empty).1 = .ok front ∧ front <+: order := by
  obtain ⟨roots, after, built⟩ := rootGraph_of_ok done
  have grows := r.rootGraph_grows tree searchPaths (first ++ others) [] .empty
  rw [built] at grows
  obtain ⟨before, between, builtFirst, builtOthers⟩ := rootGraph_append_ok built
  obtain ⟨rootedFirst, -, -⟩ := rootGraph_rooted (rooted_nil tree searchPaths _) builtFirst
  obtain ⟨rooted, kept, -⟩ := rootGraph_rooted rootedFirst builtOthers
  -- both orders are walks over what is listed in the end
  have lists := lists_listed grows rooted
  have walk := (compilationOrder_ok_iff built lists).mp done
  obtain ⟨added, whole⟩ := kept.map Prod.fst
  rw [Table.keys, ← whole] at walk
  obtain ⟨front, walkFirst, leads⟩ := walk.of_append
  have listsFirst := lists.front keeps builtOthers kept
  exact ⟨front, (compilationOrder_ok_iff builtFirst listsFirst).mpr walkFirst, leads⟩

/-! ## What was done does not matter -/

/-- The same answer, and the same memory after it, whatever was done. -/
inductive Alike {α : Type} : Outcome α → Outcome α → Prop
  | intro (result : Except ResolveError α) {s t : Session} :
      s.cache = t.cache → Alike (result, s) (result, t)

theorem dependencies_alike (r : Resolver) (tree : FileTree) (header : Text)
    (searchPaths : List Text) (same : s.cache = t.cache) :
    Alike (r.dependencies tree header searchPaths s) (r.dependencies tree header searchPaths t) := by
  by_cases keyed : ∃ path key, tree.Keyed header path key
  · obtain ⟨path, key, keyed⟩ := keyed
    cases known : s.cache.get? (key, searchPaths) with
    | some found =>
      rw [dependencies_hit keyed known, dependencies_hit keyed (same ▸ known)]
      exact .intro _ same
    | none =>
      rw [dependencies_miss keyed known, dependencies_miss keyed (same ▸ known)]
      cases (r.scope tree searchPaths).discover path with
      | error cause => exact .intro _ same
      | ok d => exact .intro _ (congrArg (Table.set (key, searchPaths) d.found) same)
  · obtain ⟨cause, failed⟩ := r.dependencies_astray searchPaths keyed
    rw [failed, failed]
    exact .intro _ same

theorem rootGraph_alike (r : Resolver) (tree : FileTree) (searchPaths headers : List Text)
    (graph : Graph) (same : s.cache = t.cache) :
    Alike (r.rootGraph tree searchPaths headers graph s)
      (r.rootGraph tree searchPaths headers graph t) := by
  induction headers generalizing graph s t with
  | nil => exact .intro _ same
  | cons header rest ih =>
    rw [rootGraph, rootGraph]
    cases tree.canonical header with
    | error cause => exact .intro _ same
    | ok root =>
      have asked := r.dependencies_alike tree root searchPaths same
      dsimp only
      generalize r.dependencies tree root searchPaths s = left at asked ⊢
      generalize r.dependencies tree root searchPaths t = right at asked ⊢
      obtain ⟨cause | found, caches⟩ := asked
      · exact .intro _ caches
      · exact ih _ caches

theorem metDependencies_alike (r : Resolver) (tree : FileTree) (searchPaths : List Text)
    (roots : Graph) (node : Text) (same : s.cache = t.cache) :
    Alike (r.metDependencies tree searchPaths roots node s)
      (r.metDependencies tree searchPaths roots node t) := by
  unfold metDependencies
  cases roots.get? node with
  | some found => exact .intro _ same
  | none =>
    have asked := r.dependencies_alike tree node searchPaths same
    dsimp only
    generalize r.dependencies tree node searchPaths s = left at asked ⊢
    generalize r.dependencies tree node searchPaths t = right at asked ⊢
    obtain ⟨(_ | _) | found, caches⟩ := asked
    all_goals exact .intro _ caches

theorem closeGraph_alike (r : Resolver) (tree : FileTree) (searchPaths : List Text) (roots : Graph)
    (fuel : Nat) (pending : List Text) (graph : Graph) (same : s.cache = t.cache) :
    Alike (r.closeGraph tree searchPaths roots fuel pending graph s)
      (r.closeGraph tree searchPaths roots fuel pending graph t) := by
  induction fuel generalizing pending graph s t with
  | zero => exact .intro _ same
  | succ fuel ih =>
    cases pending with
    | nil => exact .intro _ same
    | cons node rest =>
      rw [closeGraph, closeGraph]
      split
      next => exact ih rest graph same
      next =>
        have asked := r.metDependencies_alike tree searchPaths roots node same
        generalize r.metDependencies tree searchPaths roots node s = left at asked ⊢
        generalize r.metDependencies tree searchPaths roots node t = right at asked ⊢
        obtain ⟨cause | found, caches⟩ := asked
        · exact .intro _ caches
        · exact ih _ _ caches

theorem closingSteps_congr (tree : FileTree) (pending : List Text) (same : s.cache = t.cache) :
    closingSteps tree pending s = closingSteps tree pending t := by
  unfold closingSteps
  rw [same]

theorem graph_alike {others : List Text}
    (alike : Alike (r.rootGraph tree searchPaths headers [] s)
      (r.rootGraph tree searchPaths others [] t)) :
    Alike (r.graph tree headers searchPaths true s) (r.graph tree others searchPaths true t) := by
  unfold graph
  generalize r.rootGraph tree searchPaths headers [] s = left at alike ⊢
  generalize r.rootGraph tree searchPaths others [] t = right at alike ⊢
  obtain ⟨cause | roots, caches⟩ := alike
  · exact .intro _ caches
  · simp only [↓reduceIte]
    rw [closingSteps_congr tree _ caches]
    exact r.closeGraph_alike tree searchPaths roots _ _ [] caches

/-- Headers with the same roots and the same memory after them have the same order. -/
theorem compilationOrder_of_alike {others : List Text}
    (alike : Alike (r.rootGraph tree searchPaths headers [] s)
      (r.rootGraph tree searchPaths others [] t)) :
    (r.compilationOrder tree headers searchPaths s).1 =
      (r.compilationOrder tree others searchPaths t).1 := by
  have graphs := graph_alike alike
  unfold compilationOrder
  generalize r.graph tree headers searchPaths true s = left at graphs ⊢
  generalize r.graph tree others searchPaths true t = right at graphs ⊢
  obtain ⟨cause | graph, -⟩ := graphs
  · rfl
  · dsimp only
    cases graph.topologicalOrder <;> rfl

/-! ## A root that is listed again -/

/-- A root that is known stays as it is, and is answered from the memory. -/
theorem rootGraph_known (rooted : Rooted tree searchPaths roots s)
    (canonical : tree.canonical header = .ok root) (known : root ∈ Table.keys roots)
    (rest : List Text) :
    ∃ later : Session, later.cache = s.cache ∧
      r.rootGraph tree searchPaths (header :: rest) roots s =
        r.rootGraph tree searchPaths rest roots later := by
  obtain ⟨⟨_, found⟩, entry, rfl⟩ := List.mem_map.mp known
  obtain ⟨path, key, keyed, remembered⟩ := rooted _ found entry
  refine ⟨s.note (.cacheHit path), rfl, ?_⟩
  rw [rootGraph, canonical]
  dsimp only
  rw [dependencies_hit keyed remembered]
  dsimp only
  rw [Table.set_of_get?_eq_some (rooted.get? entry)]

theorem compilationOrder_repeat {before : List Text} {earlier : Text} (r : Resolver)
    (searchPaths after : List Text) (s : Session) (member : earlier ∈ before)
    (same : tree.canonical earlier = tree.canonical header) :
    (r.compilationOrder tree (before ++ header :: after) searchPaths s).1 =
      (r.compilationOrder tree (before ++ after) searchPaths s).1 := by
  apply compilationOrder_of_alike
  rw [rootGraph_append, rootGraph_append]
  rcases built : r.rootGraph tree searchPaths before [] s with ⟨cause | roots, between⟩
  · exact .intro _ rfl
  · obtain ⟨rooted, -, members⟩ := rootGraph_rooted (rooted_nil tree searchPaths s) built
    obtain ⟨root, known, canonical⟩ := members earlier member
    -- the roots after it are asked for with one more event behind them
    obtain ⟨later, cache, skipped⟩ :=
      rootGraph_known (r := r) rooted (same ▸ canonical) known after
    dsimp only
    rw [skipped]
    exact r.rootGraph_alike tree searchPaths after roots cache

theorem rootGraph_spelling (r : Resolver) (searchPaths before after : List Text) {other : Text}
    (same : tree.canonical header = tree.canonical other) (graph : Graph) (s : Session) :
    r.rootGraph tree searchPaths (before ++ header :: after) graph s =
      r.rootGraph tree searchPaths (before ++ other :: after) graph s := by
  rw [rootGraph_append, rootGraph_append]
  simp only [rootGraph, same]

theorem compilationOrder_spelling (r : Resolver) (searchPaths before after : List Text)
    {other : Text} (s : Session) (same : tree.canonical header = tree.canonical other) :
    r.compilationOrder tree (before ++ header :: after) searchPaths s =
      r.compilationOrder tree (before ++ other :: after) searchPaths s := by
  unfold compilationOrder graph
  rw [r.rootGraph_spelling searchPaths before after same]

theorem compilationOrder_prefix (r : Resolver) (tree : FileTree) (searchPaths : List Text) :
    (∀ first others order,
      (∀ header ∈ others, ∀ root, tree.canonical header = .ok root →
        r.KeepsOwn tree searchPaths root) →
      (r.compilationOrder tree (first ++ others) searchPaths .empty).1 = .ok order →
      ∃ front, (r.compilationOrder tree first searchPaths .empty).1 = .ok front ∧
        front <+: order) ∧
    (∀ before earlier header after s, earlier ∈ before →
      tree.canonical earlier = tree.canonical header →
      (r.compilationOrder tree (before ++ header :: after) searchPaths s).1 =
        (r.compilationOrder tree (before ++ after) searchPaths s).1) ∧
    (∀ before header other after s, tree.canonical header = tree.canonical other →
      r.compilationOrder tree (before ++ header :: after) searchPaths s =
        r.compilationOrder tree (before ++ other :: after) searchPaths s) :=
  ⟨fun _ _ _ keeps done => compilationOrder_front keeps done,
    fun _ _ _ after s member same => r.compilationOrder_repeat searchPaths after s member same,
    fun before _ _ after s same => r.compilationOrder_spelling searchPaths before after s same⟩

/-- The canonical path of `l/../x.h` is that of `x.h`, since `l` is a link to itself. The link at `x.h`
has the canonical path of `w.h` in the same way, and `w.h` is a link to the header that `a.h`
includes. -/
def lentTree : FileTree where
  entries := [
    (["a.h".toList], .file (encode "#include \"s/y.h\"\n".toList)),
    (["s".toList], .directory),
    (["s".toList, "y.h".toList], .file (encode "#include \"z.h\"\n".toList)),
    (["s".toList, "z.h".toList], .file []),
    (["l".toList], .link "l".toList),
    (["x.h".toList], .link "l/../w.h".toList),
    (["w.h".toList], .link "s/y.h".toList)]
  workingDirectory := []
  denials := []

theorem compilationOrder_prefix_settled :
    (∃ front, ((Resolver.mk []).compilationOrder lentTree ["s/z.h".toList] [] .empty).1 = .ok front ∧
        front <+: ["/s/z.h".toList, "/s/y.h".toList, "/a.h".toList]) ∧
      ((Resolver.mk []).compilationOrder lentTree ["a.h".toList, "./a.h".toList] [] .empty).1 =
        ((Resolver.mk []).compilationOrder lentTree ["a.h".toList] [] .empty).1 ∧
      (Resolver.mk []).compilationOrder lentTree ["w.h".toList] [] .empty =
        (Resolver.mk []).compilationOrder lentTree ["s/y.h".toList] [] .empty := by
  obtain ⟨added, repeated, spelled⟩ := compilationOrder_prefix ⟨[]⟩ lentTree []
  refine ⟨added ["s/z.h".toList] ["a.h".toList] _ (fun header member root canonical => ?_) (by cbv),
    repeated ["a.h".toList] "a.h".toList "./a.h".toList [] .empty List.mem_cons_self (by cbv),
    spelled [] "w.h".toList "s/y.h".toList [] .empty (by cbv)⟩
  cases List.mem_singleton.mp member
  have own : lentTree.canonical "a.h".toList = .ok "/a.h".toList := by cbv
  rw [own, Except.ok.injEq] at canonical
  subst canonical
  exact keepsOwn_of_canonical _ _ (by cbv)

/-- The list of `w.h`, which has no file `z.h` beside it, is kept as that of `s/y.h`. So it matters
that the root is asked for before `s/y.h` is met. -/
theorem compilationOrder_lent :
    ∃ front order,
      ((Resolver.mk []).compilationOrder lentTree ["a.h".toList] [] .empty).1 = .ok front ∧
      ((Resolver.mk []).compilationOrder lentTree (["a.h".toList] ++ ["l/../x.h".toList]) []
        .empty).1 = .ok order ∧
      ¬front <+: order :=
  ⟨["/s/z.h".toList, "/s/y.h".toList, "/a.h".toList],
    ["/s/y.h".toList, "/s/z.h".toList, "/a.h".toList, "/x.h".toList], by cbv, by cbv, by decide⟩

end CHeader.Resolver
