import CHeader.Proofs.File.Plain
import CHeader.Proofs.FirstError
import CHeader.Proofs.Resolver.Dependencies
import CHeader.Proofs.Resolver.Unsettled

/-!
# Which headers are refused

A header is refused if there is no regular file at its canonical path, or if that file cannot be read.
Nothing that it includes can change that. The graph and the order of settled headers fail with the
error of the first header that is refused, and besides that an order fails only at a cycle.

A header that is not settled is looked for at the canonical path of its canonical path when it stands
in a list, so that the graph of a single header fails if and only if its canonical path is refused.
-/
namespace CHeader.Resolver

open Text

variable {tree : FileTree} {r : Resolver} {header root : Text} {headers searchPaths : List Text}
  {cause : ResolveError}

/-! ## One header -/

theorem keyed_of_not_mem (sound : tree.Sound) (absent : '\x00' ∉ header) :
    ∃ path key, tree.Keyed header path key ∧ FileTree.Plain path := by
  obtain ⟨path, canonical, plain⟩ := FileTree.canonical_plain sound absent
  obtain ⟨key, again, -⟩ := FileTree.canonical_plain sound plain.not_mem
  exact ⟨path, key, ⟨canonical, again⟩, plain⟩

theorem answer_eq_error_iff (r : Resolver) (searchPaths : List Text) (sound : tree.Sound)
    (absent : '\x00' ∉ header) :
    ∃ path, tree.canonical header = .ok path ∧ ∀ cause,
      r.answer tree searchPaths header = .error cause ↔
        ∃ refusal, tree.Refuses path refusal ∧ cause = .header refusal := by
  obtain ⟨path, key, keyed, plain⟩ := keyed_of_not_mem sound absent
  refine ⟨path, keyed.1, fun cause => ?_⟩
  simp only [← readHeader_eq_error_iff plain.tidy]
  rw [r.answer_of_keyed searchPaths keyed]
  cases reading : readHeader tree path with
  | error refusal =>
    rw [(r.scope tree searchPaths).discover_error reading]
    simp only [Except.error.injEq, exists_eq_left']
    exact eq_comm
  | ok text =>
    -- whatever a header includes, its own text is all that has to be read
    obtain ⟨d, discovered, -⟩ := (r.scope tree searchPaths).discover_ok reading
    simp [discovered]

/-! ## Several headers -/

/-- A settled header is answered where its canonical path says. -/
theorem answer_canonical (r : Resolver) (searchPaths : List Text) (settled : tree.Settled header)
    (canonical : tree.canonical header = .ok root) :
    r.answer tree searchPaths root = r.answer tree searchPaths header := by
  have again := settled root canonical
  rw [r.answer_of_keyed searchPaths ⟨canonical, again⟩, r.answer_of_keyed searchPaths ⟨again, again⟩]

theorem rootLists_eq_error_iff (r : Resolver) (searchPaths : List Text)
    (placed : ∀ header ∈ headers, ∃ root, tree.canonical header = .ok root)
    (settled : ∀ header ∈ headers, tree.Settled header) (graph : Graph) :
    r.rootLists tree searchPaths headers graph = .error cause ↔
      FirstError (r.answer tree searchPaths) headers cause := by
  induction headers generalizing graph with
  | nil =>
    constructor
    · intro failed
      cases failed
    · exact fun failed => absurd failed not_firstError_nil
  | cons header rest ih =>
    obtain ⟨⟨root, canonical⟩, places⟩ := List.forall_mem_cons.mp placed
    obtain ⟨here, others⟩ := List.forall_mem_cons.mp settled
    rw [rootLists, canonical, firstError_cons]
    dsimp only
    rw [answer_canonical r searchPaths here canonical]
    cases answered : r.answer tree searchPaths header with
    | error refusal => simp
    | ok found =>
      -- an answered root is no reason to stop, whatever the graph holds by now
      simp [ih places others]

theorem graph_eq_error_iff (r : Resolver) (searchPaths : List Text) (cause : ResolveError)
    (placed : ∀ header ∈ headers, ∃ root, tree.canonical header = .ok root)
    (settled : ∀ header ∈ headers, tree.Settled header) (closed : Bool) :
    (r.graph tree headers searchPaths closed .empty).1 = .error cause ↔
      FirstError (r.answer tree searchPaths) headers cause := by
  rw [graph_settled settled, ← rootLists_eq_error_iff r searchPaths placed settled [], graphOf]
  cases r.rootLists tree searchPaths headers [] <;> simp

/-- Closing a graph refuses nothing, and sorting it fails only at a cycle. -/
theorem compilationOrder_error (cause : ResolveError) (r : Resolver) (tree : FileTree)
    (headers searchPaths : List Text) (s : Session) :
    ((r.graph tree headers searchPaths true s).1 = .error cause →
      (r.compilationOrder tree headers searchPaths s).1 = .error cause) ∧
    ((r.compilationOrder tree headers searchPaths s).1 = .error cause →
      (r.graph tree headers searchPaths true s).1 = .error cause ∨
        ∃ node, cause = .circular node) := by
  unfold compilationOrder
  rcases r.graph tree headers searchPaths true s with ⟨failed | graph, after⟩
  · constructor
    · intro same
      cases same
      rfl
    · intro same
      cases same
      exact Or.inl rfl
  · dsimp only
    cases graph.topologicalOrder with
    | error node =>
      constructor
      · intro failed
        cases failed
      · intro failed
        cases failed
        exact Or.inr ⟨node, rfl⟩
    | ok order =>
      constructor
      · intro failed
        cases failed
      · intro failed
        cases failed

/-! ## A header that is not settled -/

theorem graph_single_eq_error_iff (sound : tree.Sound) (absent : '\x00' ∉ header)
    (canonical : tree.canonical header = .ok root) (closed : Bool) :
    (r.graph tree [header] searchPaths closed .empty).1 = .error cause ↔
      r.answer tree searchPaths root = .error cause := by
  obtain ⟨place, place_canonical, plain⟩ := FileTree.canonical_plain sound absent
  obtain rfl : root = place := by
    rw [canonical, Except.ok.injEq] at place_canonical
    exact place_canonical
  obtain ⟨place, key, keyed, -⟩ := keyed_of_not_mem sound plain.not_mem
  rcases asking : r.dependencies tree root searchPaths .empty with ⟨failed | found, after⟩
  · -- the root is asked for first
    simp [graph, rootGraph, canonical, answer, asking]
  · have answered : r.answer tree searchPaths root = .ok found := by rw [answer, asking]
    rw [answered]
    cases closed with
    | false => simp [graph, rootGraph, canonical, asking]
    | true => simp [graph_single canonical keyed answered]

/-! ## All errors -/

theorem error_iff_refused (r : Resolver) (searchPaths : List Text) (sound : tree.Sound) :
    (∀ header, '\x00' ∉ header → ∃ path, tree.canonical header = .ok path ∧
      ∀ cause, (r.dependencies tree header searchPaths .empty).1 = .error cause ↔
        ∃ refusal, tree.Refuses path refusal ∧ cause = .header refusal) ∧
    (∀ headers, (∀ header ∈ headers, '\x00' ∉ header ∧ tree.Settled header) → ∀ cause,
      (∀ closed, (r.graph tree headers searchPaths closed .empty).1 = .error cause ↔
        FirstError (r.answer tree searchPaths) headers cause) ∧
      (FirstError (r.answer tree searchPaths) headers cause →
        (r.compilationOrder tree headers searchPaths .empty).1 = .error cause) ∧
      ((r.compilationOrder tree headers searchPaths .empty).1 = .error cause →
        FirstError (r.answer tree searchPaths) headers cause ∨ ∃ node, cause = .circular node)) ∧
    (∀ header root, '\x00' ∉ header → tree.canonical header = .ok root → ∀ closed cause,
      (r.graph tree [header] searchPaths closed .empty).1 = .error cause ↔
        r.answer tree searchPaths root = .error cause) := by
  refine ⟨fun header absent => answer_eq_error_iff r searchPaths sound absent,
    fun headers named cause => ?_,
    fun header root absent canonical closed cause =>
      graph_single_eq_error_iff sound absent canonical closed⟩
  have placed : ∀ header ∈ headers, ∃ root, tree.canonical header = .ok root := by
    intro header member
    obtain ⟨root, canonical, -⟩ := FileTree.canonical_plain sound (named header member).1
    exact ⟨root, canonical⟩
  have settled : ∀ header ∈ headers, tree.Settled header := fun header member =>
    (named header member).2
  have graphs := graph_eq_error_iff r searchPaths cause placed settled
  obtain ⟨raised, only⟩ := compilationOrder_error cause r tree headers searchPaths .empty
  exact ⟨graphs, fun first => raised ((graphs true).mpr first),
    fun failed => (only failed).imp_left (graphs true).mp⟩

theorem error_iff_refused_mutual :
    ((∀ cause, ((Resolver.mk []).dependencies mutualTree "c.h".toList [] .empty).1 = .error cause ↔
        ∃ refusal, mutualTree.Refuses "/p/c.h".toList refusal ∧ cause = .header refusal) ∧
      (∀ closed, ((Resolver.mk []).graph mutualTree ["a.h".toList, "c.h".toList, "m.h".toList] []
        closed .empty).1 = .error (.header (.notReadable "/p/c.h".toList []))) ∧
      ((Resolver.mk []).compilationOrder mutualTree ["a.h".toList, "c.h".toList, "m.h".toList] []
        .empty).1 = .error (.header (.notReadable "/p/c.h".toList [])) ∧
      ∀ closed cause, ((Resolver.mk []).graph mutualTree ["m.h".toList] [] closed .empty).1 =
        .error cause ↔ (Resolver.mk []).answer mutualTree [] "/p/m.h".toList = .error cause) := by
  have sound : mutualTree.Sound := by
    refine FileTree.sound_of_entries ?_ ?_
    · intro location target member
      simp [mutualTree] at member
    · intro name member
      cases List.mem_singleton.mp member
      rfl
  -- the first header is answered although it includes the one that cannot be read
  have first : FirstError ((Resolver.mk []).answer mutualTree [])
      ["a.h".toList, "c.h".toList, "m.h".toList] (.header (.notReadable "/p/c.h".toList [])) := by
    refine ⟨["a.h".toList], "c.h".toList, ["m.h".toList], rfl, ?_, by cbv⟩
    intro earlier member
    cases List.mem_singleton.mp member
    exact ⟨["/p/b.h".toList, "/p/a.h".toList, "/p/c.h".toList], by cbv⟩
  have named : ∀ header ∈ ["a.h".toList, "c.h".toList, "m.h".toList],
      '\x00' ∉ header ∧ mutualTree.Settled header := by
    intro header member
    simp only [List.mem_cons, List.not_mem_nil, or_false] at member
    rcases member with rfl | rfl | rfl
    · exact ⟨by decide, FileTree.settled_of_canonical "/p/a.h".toList (by cbv) (by cbv)⟩
    · exact ⟨by decide, FileTree.settled_of_canonical "/p/c.h".toList (by cbv) (by cbv)⟩
    · exact ⟨by decide, FileTree.settled_of_canonical "/p/m.h".toList (by cbv) (by cbv)⟩
  obtain ⟨alone, several, single⟩ := error_iff_refused ⟨[]⟩ [] sound
  obtain ⟨graphs, orders, -⟩ := several _ named (.header (.notReadable "/p/c.h".toList []))
  obtain ⟨path, canonical, refused⟩ := alone "c.h".toList (by decide)
  have place : mutualTree.canonical "c.h".toList = .ok "/p/c.h".toList := by cbv
  rw [place, Except.ok.injEq] at canonical
  exact ⟨canonical ▸ refused, fun closed => (graphs closed).mpr first, orders first,
    fun closed cause => single "m.h".toList _ (by decide) (by cbv) closed cause⟩

/-- A link that leads to itself, and one through it to a header. -/
def detourTree : FileTree where
  entries := [
    (["f.h".toList], .file []),
    (["l".toList], .link "l".toList),
    (["x".toList], .link "l/../f.h".toList)]
  workingDirectory := []
  denials := []

/-- There is nothing at the canonical path, which is what the list of the header is refused for, but
there is a header at the canonical path of that, which is what the graph looks for. -/
theorem error_detour :
    FirstError ((Resolver.mk []).answer detourTree []) ["l/../x".toList]
        (.header (.notFound "/x".toList)) ∧
      ((Resolver.mk []).graph detourTree ["l/../x".toList] [] false .empty).1 =
        .ok [("/x".toList, [])] := by
  constructor
  · refine ⟨[], "l/../x".toList, [], rfl, ?_, by cbv⟩
    intro earlier member
    cases member
  · cbv

end CHeader.Resolver
