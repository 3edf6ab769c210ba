import CHeader.Proofs.Resolver.Calls
import CHeader.Proofs.Resolver.Dependencies

/-!
# A memory that only grows

Calls and changes of the files follow each other in any order. Whatever they are, what is remembered
stays: a call can only add entries, each of them the whole list that was discovered at one path, and
only under keys that had none. So a list that was given once is given again whenever its key is asked
for, even if the files say something else by then.
-/
namespace CHeader

open Text

theorem FileTree.Keyed.key_unique {tree : FileTree} {header path other key again : Text}
    (keyed : tree.Keyed header path key) (same : tree.Keyed header other again) : key = again := by
  obtain ⟨first, second⟩ := keyed
  rw [same.1, Except.ok.injEq] at first
  subst first
  rw [same.2, Except.ok.injEq] at second
  exact second.symm

namespace Resolver

variable {r : Resolver} {tree : FileTree} {header path key : Text} {searchPaths : List Text}
  {s : Session}

/-! ## One question -/

/-- A question fails and leaves the session as it was, or is answered from the memory, or adds the
list that was discovered. -/
theorem dependencies_cases (r : Resolver) (tree : FileTree) (header : Text)
    (searchPaths : List Text) (s : Session) :
    (∃ cause, r.dependencies tree header searchPaths s = (.error cause, s)) ∨
      ∃ path key, tree.Keyed header path key ∧
        ((∃ found, s.cache.get? (key, searchPaths) = some found ∧
          r.dependencies tree header searchPaths s = (.ok found, s.note (.cacheHit path))) ∨
        (s.cache.get? (key, searchPaths) = none ∧
          ∃ d, (r.scope tree searchPaths).discover path = .ok d ∧
            r.dependencies tree header searchPaths s =
              (.ok d.found, ⟨s.cache ++ [((key, searchPaths), d.found)], s.events ++ d.events⟩))) := by
  by_cases keyed : ∃ path key, tree.Keyed header path key
  · obtain ⟨path, key, keyed⟩ := keyed
    cases known : s.cache.get? (key, searchPaths) with
    | some found => exact Or.inr ⟨path, key, keyed, Or.inl ⟨found, known, dependencies_hit keyed known⟩⟩
    | none =>
      have asked := dependencies_miss (r := r) keyed known
      cases discovered : (r.scope tree searchPaths).discover path with
      | error cause =>
        rw [discovered] at asked
        exact Or.inl ⟨_, asked⟩
      | ok d =>
        rw [discovered] at asked
        dsimp only at asked
        rw [Table.set_of_not_mem (Table.get?_eq_none_iff.mp known)] at asked
        exact Or.inr ⟨path, key, keyed, Or.inr ⟨known, d, discovered, asked⟩⟩
  · obtain ⟨cause, failed⟩ := r.dependencies_astray searchPaths keyed
    exact Or.inl ⟨_, failed s⟩

/-! ## What calls add -/

/-- Each new entry is the list that is discovered at a path of the tree, kept under the canonical path
of the path, where nothing was kept before. -/
inductive Grows (r : Resolver) (tree : FileTree) : Cache → Cache → Prop
  | refl (cache : Cache) : Grows r tree cache cache
  | enter {before between : Cache} {path key : Text} {searchPaths : List Text} {d : Discovery}
      (earlier : Grows r tree before between) (canonical : tree.canonical path = .ok key)
      (unknown : between.get? (key, searchPaths) = none)
      (discovered : (r.scope tree searchPaths).discover path = .ok d) :
      Grows r tree before (between ++ [((key, searchPaths), d.found)])

theorem Grows.trans {before between after : Cache} (first : r.Grows tree before between)
    (second : r.Grows tree between after) : r.Grows tree before after := by
  induction second with
  | refl => exact first
  | enter _ canonical unknown discovered ih => exact .enter ih canonical unknown discovered

theorem Grows.isPrefix {before after : Cache} (grows : r.Grows tree before after) :
    before <+: after := by
  induction grows with
  | refl => exact List.prefix_refl _
  | enter _ _ _ _ ih => exact ih.trans (List.prefix_append _ _)

theorem dependencies_grows (r : Resolver) (tree : FileTree) (header : Text)
    (searchPaths : List Text) (s : Session) :
    r.Grows tree s.cache (r.dependencies tree header searchPaths s).2.cache := by
  obtain ⟨cause, failed⟩ | ⟨path, key, keyed, ⟨found, -, hit⟩ | ⟨unknown, d, discovered, miss⟩⟩ :=
    r.dependencies_cases tree header searchPaths s
  · rw [failed]
    exact .refl _
  · rw [hit]
    exact .refl _
  · rw [miss]
    exact .enter (.refl _) keyed.2 unknown discovered

theorem rootGraph_grows (r : Resolver) (tree : FileTree) (searchPaths headers : List Text)
    (graph : Graph) (s : Session) :
    r.Grows tree s.cache (r.rootGraph tree searchPaths headers graph s).2.cache := by
  induction headers generalizing graph s with
  | nil => exact .refl _
  | cons header rest ih =>
    rw [rootGraph]
    cases tree.canonical header with
    | error cause => exact .refl _
    | ok root =>
      have first := r.dependencies_grows tree root searchPaths s
      dsimp only
      rcases asking : r.dependencies tree root searchPaths s with ⟨cause | found, later⟩
      · -- the first failure ends the graph, with what was entered before it
        rw [asking] at first
        exact first
      · rw [asking] at first
        exact first.trans (ih _ later)

theorem metDependencies_grows (r : Resolver) (tree : FileTree) (searchPaths : List Text)
    (roots : Graph) (node : Text) (s : Session) :
    r.Grows tree s.cache (r.metDependencies tree searchPaths roots node s).2.cache := by
  rw [metDependencies]
  cases roots.get? node with
  | some known => exact .refl _
  | none =>
    have asked := r.dependencies_grows tree node searchPaths s
    dsimp only
    split
    next cause later asking =>
      rw [asking] at asked
      exact asked
    next => exact asked

theorem closeGraph_grows (r : Resolver) (tree : FileTree) (searchPaths : List Text)
    (roots : Graph) (fuel : Nat) (pending : List Text) (graph : Graph) (s : Session) :
    r.Grows tree s.cache (r.closeGraph tree searchPaths roots fuel pending graph s).2.cache := by
  induction fuel generalizing pending graph s with
  | zero => exact .refl _
  | succ fuel ih =>
    cases pending with
    | nil => exact .refl _
    | cons node rest =>
      rw [closeGraph]
      split
      next => exact ih rest graph s
      next =>
        have first := r.metDependencies_grows tree searchPaths roots node s
        rcases asking : r.metDependencies tree searchPaths roots node s with ⟨cause | found, later⟩
        · rw [asking] at first
          exact first
        · rw [asking] at first
          exact first.trans (ih _ _ later)

theorem graph_grows (r : Resolver) (tree : FileTree) (headers searchPaths : List Text)
    (closed : Bool) (s : Session) :
    r.Grows tree s.cache (r.graph tree headers searchPaths closed s).2.cache := by
  rw [graph]
  have first := r.rootGraph_grows tree searchPaths headers [] s
  rcases asking : r.rootGraph tree searchPaths headers [] s with ⟨cause | roots, later⟩
  · rw [asking] at first
    exact first
  · rw [asking] at first
    dsimp only
    split
    next => exact first.trans (r.closeGraph_grows tree searchPaths _ _ _ _ later)
    next => exact first

theorem compilationOrder_grows (r : Resolver) (tree : FileTree) (headers searchPaths : List Text)
    (s : Session) :
    r.Grows tree s.cache (r.compilationOrder tree headers searchPaths s).2.cache := by
  rw [compilationOrder]
  have first := r.graph_grows tree headers searchPaths true s
  rcases asking : r.graph tree headers searchPaths true s with ⟨cause | graph, later⟩
  · rw [asking] at first
    exact first
  · rw [asking] at first
    -- a cycle is found after all questions have been asked
    dsimp only
    split <;> exact first

/-- Whether a call is answered or fails, it leaves complete entries only. -/
theorem Call.run_grows (r : Resolver) (tree : FileTree) (call : Call) (s : Session) :
    r.Grows tree s.cache (call.run r tree s).2.cache := by
  cases call with
  | dependencies header searchPaths => exact r.dependencies_grows tree header searchPaths s
  | graph headers searchPaths closed => exact r.graph_grows tree headers searchPaths closed s
  | order headers searchPaths => exact r.compilationOrder_grows tree headers searchPaths s

/-! ## Calls and changes -/

/-- The files at a time, and what has been remembered by then. -/
structure Moment where
  tree : FileTree
  session : Session

/-- A call, or a change that leaves any other tree: with files written or removed, links led elsewhere
or permissions altered. -/
inductive Action where
  | call (call : Call)
  | change (tree : FileTree)

def Action.perform (r : Resolver) : Action → Moment → Moment
  | .call asked, m => { m with session := (asked.run r m.tree m.session).2 }
  | .change tree, m => { m with tree := tree }

namespace Moment

def later (r : Resolver) (actions : List Action) (m : Moment) : Moment :=
  actions.foldl (fun m action => action.perform r m) m

theorem prefix_perform (r : Resolver) (action : Action) (m : Moment) :
    m.session.cache <+: (action.perform r m).session.cache := by
  cases action with
  | call call => exact (call.run_grows r m.tree m.session).isPrefix
  | change tree => exact List.prefix_refl _

theorem prefix_later (r : Resolver) (actions : List Action) (m : Moment) :
    m.session.cache <+: (m.later r actions).session.cache := by
  induction actions generalizing m with
  | nil => exact List.prefix_refl _
  | cons action rest ih => exact (prefix_perform r action m).trans (ih (action.perform r m))

theorem get?_later {key : CacheKey} {found : List Text} (r : Resolver) (actions : List Action)
    (m : Moment) (known : m.session.cache.get? key = some found) :
    (m.later r actions).session.cache.get? key = some found := by
  obtain ⟨added, whole⟩ := m.prefix_later r actions
  rw [← whole]
  exact Table.get?_append_of_eq_some known added

end Moment

/-! ## What was answered once -/

theorem dependencies_eq_error {cause : ResolveError}
    (failed : (r.dependencies tree header searchPaths s).1 = .error cause) :
    (r.dependencies tree header searchPaths s).2 = s := by
  obtain ⟨other, same⟩ | ⟨path, key, -, ⟨found, -, same⟩ | ⟨-, d, -, same⟩⟩ :=
    r.dependencies_cases tree header searchPaths s
  · rw [same]
  · rw [same] at failed
    cases failed
  · rw [same] at failed
    cases failed

/-- An answer is what is remembered from then on; it is the one new entry if nothing was remembered
before. -/
theorem dependencies_eq_ok {found : List Text}
    (answered : (r.dependencies tree header searchPaths s).1 = .ok found) :
    ∃ path key, tree.Keyed header path key ∧
      (r.dependencies tree header searchPaths s).2.cache.get? (key, searchPaths) = some found ∧
      (s.cache.get? (key, searchPaths) = none →
        (r.dependencies tree header searchPaths s).2.cache =
          s.cache ++ [((key, searchPaths), found)]) := by
  obtain ⟨other, same⟩ | ⟨path, key, keyed, ⟨kept, known, same⟩ | ⟨unknown, d, -, same⟩⟩ :=
    r.dependencies_cases tree header searchPaths s
  · rw [same] at answered
    cases answered
  · rw [same] at answered ⊢
    cases answered
    refine ⟨path, key, keyed, known, fun unknown => ?_⟩
    rw [known] at unknown
    cases unknown
  · rw [same] at answered ⊢
    cases answered
    refine ⟨path, key, keyed, ?_, fun _ => rfl⟩
    rw [← Table.set_of_not_mem (Table.get?_eq_none_iff.mp unknown)]
    exact Table.get?_set_self _ _ _

/-- Nothing that is remembered is changed or removed by what happens later. A question that fails
leaves the memory as it was; one that is answered for the first time adds its own entry and nothing
else; and whoever asks with its key later is given the same list, whatever the files say by then. -/
theorem memory_persists (r : Resolver) (m : Moment) :
    (∀ actions, m.session.cache <+: (m.later r actions).session.cache ∧
      ∀ key found, m.session.cache.get? key = some found →
        (m.later r actions).session.cache.get? key = some found) ∧
    ∀ header searchPaths,
      let asked : Moment := ⟨m.tree, (r.dependencies m.tree header searchPaths m.session).2⟩
      (∀ cause, (r.dependencies m.tree header searchPaths m.session).1 = .error cause →
        asked.session.cache = m.session.cache) ∧
      ∀ found, (r.dependencies m.tree header searchPaths m.session).1 = .ok found →
        ∃ path key, m.tree.Keyed header path key ∧
          (m.session.cache.get? (key, searchPaths) = none →
            asked.session.cache = m.session.cache ++ [((key, searchPaths), found)]) ∧
          ∀ actions other place, (asked.later r actions).tree.Keyed other place key →
            (r.dependencies (asked.later r actions).tree other searchPaths
              (asked.later r actions).session).1 = .ok found := by
  refine ⟨fun actions => ⟨m.prefix_later r actions, fun _ _ known => m.get?_later r actions known⟩,
    fun header searchPaths => ⟨fun cause failed => ?_, fun found answered => ?_⟩⟩
  · exact congrArg Session.cache (dependencies_eq_error failed)
  · obtain ⟨path, key, keyed, known, added⟩ := dependencies_eq_ok answered
    refine ⟨path, key, keyed, added, fun actions other place again => ?_⟩
    rw [dependencies_hit again (Moment.get?_later r actions _ known)]

/-- The directory of the headers that include each other, with nothing left in it. -/
def emptiedTree : FileTree := { mutualTree with entries := [(["p".toList], .directory)] }

/-- The list of a header is given again after all headers are gone, and after an order that fails. -/
theorem memory_persists_emptied :
    let r : Resolver := ⟨[]⟩
    let asked : Moment := ⟨mutualTree, (r.dependencies mutualTree "a.h".toList [] .empty).2⟩
    let later := asked.later r [.change emptiedTree, .call (.order ["b.h".toList] [])]
    asked.session.cache <+: later.session.cache ∧
      (r.dependencies mutualTree "gone.h".toList [] asked.session).2.cache = asked.session.cache ∧
      ∃ found, asked.session.cache = [(("/p/a.h".toList, []), found)] ∧
        (r.dependencies later.tree "./a.h".toList [] later.session).1 = .ok found := by
  intro r asked later
  have answered : ((Resolver.mk []).dependencies mutualTree "a.h".toList [] .empty).1 =
      .ok ["/p/b.h".toList, "/p/a.h".toList, "/p/c.h".toList] := by cbv
  have failed : ((Resolver.mk []).dependencies mutualTree "gone.h".toList []
      ((Resolver.mk []).dependencies mutualTree "a.h".toList [] .empty).2).1 =
      .error (.header (.notFound "/p/gone.h".toList)) := by cbv
  have keyed : mutualTree.Keyed "a.h".toList "/p/a.h".toList "/p/a.h".toList := ⟨by cbv, by cbv⟩
  have again : emptiedTree.Keyed "./a.h".toList "/p/a.h".toList "/p/a.h".toList :=
    ⟨by cbv, by cbv⟩
  obtain ⟨path, key, known, added, persists⟩ :=
    ((memory_persists r ⟨mutualTree, .empty⟩).2 "a.h".toList []).2 _ answered
  obtain rfl := keyed.key_unique known
  exact ⟨((memory_persists r asked).1 _).1,
    ((memory_persists r asked).2 "gone.h".toList []).1 _ failed, _, added rfl, persists _ _ _ again⟩

end Resolver

end CHeader
