import CHeader.Proofs.Distinct
import CHeader.Proofs.Resolver.PostOrder

/-!
# Lists compose

Where no include cycle is reached, the list of a header is put together from the lists of the headers
that it includes: each of them is followed by its own list, and what was listed before is left out.

Discovery keeps one list for the whole walk, so that what a header adds depends on what was met
before it. But all that was met below a header has been followed to its end by the time the header is
entered (`Finished`), and so what the header leaves out of its own list is exactly what is known.
-/
namespace CHeader

open Text Relation

namespace Scope

variable {scope : Scope} {path target text : Text} {found list : List Text}

/-! ## Unfolding -/

/-- The list of a header that reaches no cycle: what it includes, unfolded without end, each header
where it stands first. -/
inductive Unfolds (scope : Scope) : (header : Text) → (list : List Text) → Prop
  | intro {header : Text} (lists : Text → List Text) :
      (∀ target ∈ scope.included header, Unfolds scope target (lists target)) →
      Unfolds scope header
        (((scope.included header).flatMap fun target => target :: lists target).eraseDups)

theorem mem_included {header : Text} : target ∈ scope.included header ↔
    scope.Includes header target := by
  unfold included Includes
  cases readHeader scope.tree header with
  | error cause => simp
  | ok text => simp [List.mem_filterMap]

namespace Unfolds

theorem unique {other : List Text} (unfolds : scope.Unfolds path list)
    (again : scope.Unfolds path other) : list = other := by
  induction unfolds generalizing other with
  | intro lists _ ih =>
    cases again with
    | intro others below =>
      congr 1
      refine List.flatMap_congr fun target member => ?_
      rw [ih target member (below target member)]

theorem mem_iff (unfolds : scope.Unfolds path list) (node : Text) :
    node ∈ list ↔ TransGen scope.Includes path node := by
  induction unfolds with
  | @intro header lists _ ih =>
    simp only [List.mem_eraseDups, List.mem_flatMap, List.mem_cons]
    constructor
    · rintro ⟨target, member, rfl | below⟩
      · exact .single (mem_included.mp member)
      · exact .head (mem_included.mp member) ((ih target member).mp below)
    · intro reached
      obtain ⟨target, includes, onward⟩ := TransGen.head'_iff.mp reached
      refine ⟨target, mem_included.mpr includes, ?_⟩
      rcases reflTransGen_iff_eq_or_transGen.mp onward with same | below
      · exact Or.inl same
      · exact Or.inr ((ih target (mem_included.mpr includes)).mpr below)

theorem distinct (unfolds : scope.Unfolds path list) : list.Nodup := by
  cases unfolds with
  | intro lists _ => exact nodup_eraseDups _

theorem composed (unfolds : scope.Unfolds path list) : ∃ lists : Text → List Text,
    (∀ target ∈ scope.included path, scope.Unfolds target (lists target)) ∧
      list = ((scope.included path).flatMap fun target => target :: lists target).eraseDups := by
  cases unfolds with
  | intro lists below => exact ⟨lists, below, rfl⟩

/-- A header that includes nothing has an empty list. -/
theorem eq_nil (unfolds : scope.Unfolds path list) (barren : scope.included path = []) :
    list = [] := by
  cases unfolds with
  | intro lists below =>
    rw [barren]
    rfl

end Unfolds

/-! ## What is finished -/

/-- What was met below the header has been followed to its end. -/
def Finished (scope : Scope) (path : Text) (found : List Text) : Prop :=
  ∀ header ∈ found, TransGen scope.Includes path header →
    ∀ target, scope.Includes header target → target ∈ found

namespace Finished

theorem nil : scope.Finished path [] := by simp [Finished]

theorem mem_of_transGen {header node : Text} (finished : scope.Finished path found)
    (member : header ∈ found) (below : TransGen scope.Includes path header)
    (reached : TransGen scope.Includes header node) : node ∈ found := by
  induction reached with
  | single includes => exact finished header member below _ includes
  | tail before includes ih => exact finished _ ih (below.trans before) _ includes

/-- With a header its whole list is entered, and what was finished stays so. -/
theorem extend (finished : scope.Finished path found) (unfolds : scope.Unfolds target list) :
    scope.Finished path (found ++ target :: list).eraseDups := by
  intro header member below next includes
  simp only [List.mem_eraseDups, List.mem_append, List.mem_cons] at member ⊢
  rcases member with known | rfl | listed
  · exact Or.inl (finished header known below next includes)
  · exact Or.inr (Or.inr ((unfolds.mem_iff next).mpr (.single includes)))
  · have reached := ((unfolds.mem_iff header).mp listed).tail includes
    exact Or.inr (Or.inr ((unfolds.mem_iff next).mpr reached))

/-- A header is entered when it has been met and nothing below it is being followed. -/
theorem enter (finished : scope.Finished path found) (includes : scope.Includes path target)
    (acyclic : ¬scope.OnCycle target) : scope.Finished target (found ++ [target]) := by
  intro header member below next onward
  rcases List.mem_append.mp member with known | new
  · exact List.mem_append_left _ (finished header known (.head includes below) next onward)
  · rw [List.mem_singleton.mp new] at below
    exact absurd below acyclic

end Finished

/-! ## Following a header -/

/-- Following a header enters its list after what is known. -/
def Enters (scope : Scope) (fuel : Nat) (chain : List Text) (path text : Text) (list : List Text) :
    Prop :=
  ∀ d, d.found.Nodup → scope.Finished path d.found →
    (scope.follow fuel chain path text d).found = (d.found ++ list).eraseDups

variable {fuel : Nat} {chain : List Text}

theorem found_meetName {name : Text} (located : scope.locate? (directoryOf path) name = some target)
    (includes : scope.Includes path target) (unfolds : scope.Unfolds target list)
    (acyclic : ¬scope.OnCycle target) (inactive : target ∉ path :: chain)
    (onward : ∀ text, readHeader scope.tree target = .ok text →
      scope.Enters fuel (path :: chain) target text list)
    (d : Discovery) (distinct : d.found.Nodup) (finished : scope.Finished path d.found) :
    (scope.meetName fuel chain path d name).found = (d.found ++ target :: list).eraseDups := by
  rw [meetName, located]
  dsimp only
  split
  next known =>
    -- what is below a known header is known
    have whole : target :: list ⊆ d.found := by
      refine List.cons_subset.mpr ⟨known, fun node member => ?_⟩
      exact finished.mem_of_transGen known (.single includes) ((unfolds.mem_iff node).mp member)
    exact (eraseDups_append_of_subset distinct whole).symm
  next fresh =>
    have entered : (d.found ++ [target]).Nodup := by
      rw [← List.concat_eq_append]
      exact distinct.concat fresh
    cases reading : readHeader scope.tree target with
    | error cause =>
      have barren : scope.included target = [] := by rw [included, reading]
      rw [unfolds.eq_nil barren]
      exact (eraseDups_eq_self entered).symm
    | ok text =>
      have followed := onward text reading ((d.meet target).note (.opened target)) entered
        (finished.enter includes acyclic)
      rw [List.append_cons]
      exact followed

theorem found_foldl_meetName {names : List Text} {lists : Text → List Text}
    (unfolds : ∀ target ∈ names.filterMap (scope.locate? (directoryOf path)),
      scope.Unfolds target (lists target))
    (step : ∀ name ∈ names, ∀ target, scope.locate? (directoryOf path) name = some target →
      ∀ d, d.found.Nodup → scope.Finished path d.found →
        (scope.meetName fuel chain path d name).found =
          (d.found ++ target :: lists target).eraseDups)
    (d : Discovery) (distinct : d.found.Nodup) (finished : scope.Finished path d.found) :
    (names.foldl (scope.meetName fuel chain path) d).found =
      (d.found ++ (names.filterMap (scope.locate? (directoryOf path))).flatMap
        fun target => target :: lists target).eraseDups := by
  induction names generalizing d with
  | nil => simp [eraseDups_eq_self distinct]
  | cons name names ih =>
    obtain ⟨here, others⟩ := List.forall_mem_cons.mp step
    rw [List.foldl_cons]
    cases located : scope.locate? (directoryOf path) name with
    | none =>
      rw [List.filterMap_cons_none located] at unfolds ⊢
      have passed : (scope.meetName fuel chain path d name).found = d.found := by
        rw [meetName, located]
        rfl
      rw [ih unfolds others _ (passed ▸ distinct) (passed ▸ finished), passed]
    | some target =>
      rw [List.filterMap_cons_some located] at unfolds ⊢
      obtain ⟨first, later⟩ := List.forall_mem_cons.mp unfolds
      have met := here target located d distinct finished
      rw [ih later others _ (met ▸ nodup_eraseDups _) (met ▸ finished.extend first), met,
        List.flatMap_cons, ← List.append_assoc]
      exact eraseDups_eraseDups_append _ _

/-- What is reached from the header lies on no include cycle. -/
def Acyclic (scope : Scope) (path : Text) : Prop :=
  ∀ header, ReflTransGen scope.Includes path header → ¬scope.OnCycle header

theorem Acyclic.onward (acyclic : scope.Acyclic path) (includes : scope.Includes path target) :
    scope.Acyclic target := fun header reached => acyclic header (.head includes reached)

/-- A cycle through the header would run through one that it includes. -/
theorem Acyclic.of_included (below : ∀ target ∈ scope.included path, scope.Acyclic target) :
    scope.Acyclic path := by
  intro header reached cycle
  obtain ⟨target, includes, onward⟩ : ∃ target, scope.Includes path target ∧
      ReflTransGen scope.Includes target header := by
    rcases reflTransGen_iff_eq_or_transGen.mp reached with rfl | further
    · exact TransGen.head'_iff.mp cycle
    · exact TransGen.head'_iff.mp further
  exact below target (mem_included.mpr includes) header onward cycle

/-- The depth allowed is never reached, as in `follows`. -/
theorem unfolds_follow (root : Text) (fuel : Nat) (chain : List Text)
    (readable : readHeader scope.tree path = .ok text) (acyclic : scope.Acyclic path)
    (leading : ∀ upper ∈ chain, TransGen scope.Includes upper path) (distinct : (path :: chain).Nodup)
    (files : ∀ header ∈ path :: chain, header = root ∨ scope.tree.HasFile header)
    (enough : scope.tree.entries.length + 2 ≤ fuel + chain.length) :
    ∃ list, scope.Unfolds path list ∧ scope.Enters fuel chain path text list := by
  induction fuel generalizing chain path text with
  | zero =>
    -- a chain longer than the tree has files
    have bound := length_le_of_chain distinct files
    rw [List.length_cons] at bound
    omega
  | succ fuel ih =>
    have leads : ∀ target, scope.Includes path target → ∀ upper ∈ path :: chain,
        TransGen scope.Includes upper target := by
      intro target includes upper member
      rcases List.mem_cons.mp member with rfl | above
      · exact .single includes
      · exact (leading upper above).tail includes
    -- a target that is being followed would lie on a cycle
    have inactive : ∀ target, scope.Includes path target → target ∉ path :: chain :=
      fun target includes active =>
        acyclic target (.single includes) (leads target includes target active)
    have below : ∀ target ∈ scope.included path, ∃ list, scope.Unfolds target list ∧
        ∀ text, readHeader scope.tree target = .ok text →
          scope.Enters fuel (path :: chain) target text list := by
      intro target member
      have includes := mem_included.mp member
      cases reading : readHeader scope.tree target with
      | error cause =>
        refine ⟨_, .intro (fun _ => []) fun other listed => ?_, by simp⟩
        exact absurd (mem_included.mp listed) (not_includes_of_error reading other)
      | ok text =>
        have fresh := inactive target includes
        obtain ⟨list, unfolds, enters⟩ := ih (path :: chain) reading (acyclic.onward includes)
          (leads target includes) (List.nodup_cons.mpr ⟨fresh, distinct⟩)
          (fun header inside => (List.mem_cons.mp inside).elim
            (fun same => Or.inr (same ▸ includes.hasFile)) (files header))
          (by rw [List.length_cons]; omega)
        refine ⟨list, unfolds, fun again same => ?_⟩
        cases same
        exact enters
    choose! lists unfolds enters using below
    refine ⟨_, .intro lists unfolds, fun d distinctFound finished => ?_⟩
    have names : scope.included path =
        (Include.extract text).filterMap (scope.locate? (directoryOf path)) := by
      rw [included, readable]
    rw [follow_succ, eraseDups_append_eraseDups, names]
    refine found_foldl_meetName (names ▸ unfolds) (fun name member target located => ?_) d
      distinctFound finished
    have includes : scope.Includes path target := ⟨text, readable, name, member, located⟩
    have listed := mem_included.mpr includes
    exact found_meetName located includes (unfolds target listed) (acyclic target (.single includes))
      (inactive target includes) (enters target listed)

theorem discover_unfolds (readable : readHeader scope.tree path = .ok text)
    (acyclic : scope.Acyclic path) :
    ∃ d, scope.discover path = .ok d ∧ scope.Unfolds path d.found := by
  obtain ⟨list, unfolds, enters⟩ := unfolds_follow path (scope.tree.entries.length + 2) [] readable
    acyclic (by simp) (List.nodup_singleton path) (by simp) (by simp)
  have entered := enters (Discovery.empty.note (.opened path)) List.nodup_nil .nil
  have whole : (scope.follow (scope.tree.entries.length + 2) [] path text
      (Discovery.empty.note (.opened path))).found = list := by
    rw [entered]
    exact eraseDups_eq_self unfolds.distinct
  exact ⟨_, by rw [discover, readable], whole ▸ unfolds⟩

end Scope

namespace Resolver

variable {tree : FileTree} {header path text : Text}

theorem dependencies_compose (r : Resolver) (searchPaths : List Text)
    (canonical : tree.canonical header = .ok path)
    (readable : readHeader tree path = .ok text)
    (acyclic : (r.scope tree searchPaths).Acyclic path) :
    ∃ (found : List Text) (lists : Text → List Text),
      (r.dependencies tree header searchPaths .empty).1 = .ok found ∧
      (∀ target ∈ (r.scope tree searchPaths).included path,
        (∀ text, readHeader tree target = .ok text →
          (r.dependencies tree target searchPaths .empty).1 = .ok (lists target)) ∧
        (∀ cause, readHeader tree target = .error cause → lists target = [])) ∧
      found = (((r.scope tree searchPaths).included path).flatMap
        fun target => target :: lists target).eraseDups := by
  obtain ⟨d, discovered, unfolds⟩ := Scope.discover_unfolds readable acyclic
  obtain ⟨key, again, -, -⟩ := readHeader_canonical readable
  have answered := r.answer_of_keyed searchPaths ⟨canonical, again⟩
  rw [discovered] at answered
  obtain ⟨lists, below, composed⟩ := unfolds.composed
  refine ⟨d.found, lists, answered, fun target member => ⟨fun text reading => ?_,
    fun cause reading => ?_⟩, composed⟩
  · -- the list of a target is its own answer, since there is only one
    have includes := Scope.mem_included.mp member
    have file : tree.HasFile target := includes.hasFile
    obtain ⟨own, alone, unfoldsAlone⟩ := Scope.discover_unfolds reading (acyclic.onward includes)
    have answer := r.answer_of_keyed searchPaths file.keyed
    rw [alone] at answer
    rw [(below target member).unique unfoldsAlone]
    exact answer
  · refine (below target member).eq_nil ?_
    rw [Scope.included, show readHeader (r.scope tree searchPaths).tree target = _ from reading]

/-- Two headers that include a third one in common, which would close a cycle but cannot be read. -/
def sharedTree : FileTree where
  entries := [
    (["p".toList], .directory),
    (["p".toList, "a.h".toList], .file (encode "#include \"b.h\"\n#include \"c.h\"\n".toList)),
    (["p".toList, "b.h".toList], .file (encode "#include <c.h>\n".toList)),
    (["p".toList, "c.h".toList], .file (encode "#include \"a.h\"\n".toList))]
  workingDirectory := ["p".toList]
  denials := [(["p".toList, "c.h".toList], .access)]

theorem dependencies_compose_shared :
    ((Resolver.mk []).scope sharedTree []).Acyclic "/p/a.h".toList ∧
    ∃ (found : List Text) (lists : Text → List Text),
      ((Resolver.mk []).dependencies sharedTree "a.h".toList [] .empty).1 = .ok found ∧
      (∀ target ∈ ((Resolver.mk []).scope sharedTree []).included "/p/a.h".toList,
        (∀ text, readHeader sharedTree target = .ok text →
          ((Resolver.mk []).dependencies sharedTree target [] .empty).1 = .ok (lists target)) ∧
        (∀ cause, readHeader sharedTree target = .error cause → lists target = [])) ∧
      found = ((((Resolver.mk []).scope sharedTree []).included "/p/a.h".toList).flatMap
        fun target => target :: lists target).eraseDups := by
  have readable : readHeader sharedTree "/p/a.h".toList =
      .ok "#include \"b.h\"\n#include \"c.h\"\n".toList := by cbv
  have canonical : sharedTree.canonical "a.h".toList = .ok "/p/a.h".toList := by cbv
  have third : ((Resolver.mk []).scope sharedTree []).Acyclic "/p/c.h".toList := by
    apply Scope.Acyclic.of_included
    have nothing : ((Resolver.mk []).scope sharedTree []).included "/p/c.h".toList = [] := by cbv
    rw [nothing]
    exact List.forall_mem_nil _
  have second : ((Resolver.mk []).scope sharedTree []).Acyclic "/p/b.h".toList := by
    apply Scope.Acyclic.of_included
    have one : ((Resolver.mk []).scope sharedTree []).included "/p/b.h".toList =
        ["/p/c.h".toList] := by cbv
    rw [one, List.forall_mem_singleton]
    exact third
  have acyclic : ((Resolver.mk []).scope sharedTree []).Acyclic "/p/a.h".toList := by
    apply Scope.Acyclic.of_included
    have both : ((Resolver.mk []).scope sharedTree []).included "/p/a.h".toList =
        ["/p/b.h".toList, "/p/c.h".toList] := by cbv
    rw [both, List.forall_mem_cons, List.forall_mem_singleton]
    exact ⟨second, third⟩
  exact ⟨acyclic, dependencies_compose ⟨[]⟩ [] canonical readable acyclic⟩

end Resolver

end CHeader
