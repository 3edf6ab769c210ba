import Mathlib
import CHeader.Resolver.Basic
import CHeader.Proofs.Discovery

-- The whole library: on top of this module runs of the resolver are evaluated on small trees, and the
-- equations by which that unfolds `Char.ofNat` and the like are in no part of it that could be named.

/-!
# What a session remembers

A list of dependencies is kept under the canonical path of the header's canonical path, and a
canonical path that runs through a link to itself need not be its own. So headers with different
canonical paths can share a key. What is remembered is the answer to a later question when headers
that share a key have the same dependencies.
-/
namespace CHeader

open Text Relation

variable {tree : FileTree}

/-! ## Keys -/

namespace FileTree

/-- The canonical path of the header is its own canonical path. -/
def Settled (tree : FileTree) (header : Text) : Prop :=
  ∀ path, tree.canonical header = .ok path → tree.canonical path = .ok path

theorem settled_of_canonical {header : Text} (path : Text)
    (canonical : tree.canonical header = .ok path)
    (again : tree.canonical path = .ok path) : tree.Settled header := by
  intro other same
  rw [canonical, Except.ok.injEq] at same
  exact same ▸ again

/-- The lists of the header are discovered at `path` and kept under `key`. -/
def Keyed (tree : FileTree) (header path key : Text) : Prop :=
  tree.canonical header = .ok path ∧ tree.canonical path = .ok key

theorem HasFile.keyed {path : Text} (file : tree.HasFile path) : tree.Keyed path path path :=
  ⟨canonical_of_hasFile file, canonical_of_hasFile file⟩

theorem HasFile.keyed_eq {header path key : Text} (file : tree.HasFile header)
    (keyed : tree.Keyed header path key) : path = header ∧ key = header := by
  obtain ⟨first, second⟩ := keyed
  rw [canonical_of_hasFile file, Except.ok.injEq] at first
  subst first
  rw [canonical_of_hasFile file, Except.ok.injEq] at second
  exact ⟨rfl, second.symm⟩

theorem HasFile.settled {path : Text} (file : tree.HasFile path) : tree.Settled path := by
  intro other same
  rw [canonical_of_hasFile file, Except.ok.injEq] at same
  exact same ▸ canonical_of_hasFile file

theorem settled_of_readable {header text : Text} (readable : readHeader tree header = .ok text) :
    tree.Settled header := by
  obtain ⟨root, canonical, file, -⟩ := readHeader_canonical readable
  exact settled_of_canonical root canonical (canonical_of_hasFile file)

theorem Settled.canonical {header path : Text} (settled : tree.Settled header)
    (canonical : tree.canonical header = .ok path) : tree.Settled path := by
  intro other same
  rw [settled path canonical, Except.ok.injEq] at same
  exact same ▸ settled path canonical

/-- A link that leads to itself, and one to a header in the directory below. The canonical path of
`l/../x.h` is that of the second link, which has another canonical path. -/
def loopedTree : FileTree where
  entries := [
    (["s".toList], .directory),
    (["s".toList, "y.h".toList], .file (encode "#include \"z.h\"\n".toList)),
    (["s".toList, "z.h".toList], .file []),
    (["l".toList], .link "l".toList),
    (["x.h".toList], .link "s/y.h".toList)]
  workingDirectory := []
  denials := []

theorem Settled.key_eq {header path key : Text} (settled : tree.Settled header)
    (keyed : tree.Keyed header path key) : key = path := by
  have same := keyed.2
  rw [settled path keyed.1, Except.ok.injEq] at same
  exact same.symm

end FileTree

namespace Resolver

variable {r : Resolver} {asked : Text → Prop} {s : Session}
  {header path key : Text} {searchPaths found : List Text}

/-! ## One question -/

theorem dependencies_hit (keyed : tree.Keyed header path key)
    (known : s.cache.get? (key, searchPaths) = some found) :
    r.dependencies tree header searchPaths s = (.ok found, s.note (.cacheHit path)) := by
  simp only [dependencies, keyed.1, Cache.fetch, Cache.key, keyed.2, Except.map, known]

theorem dependencies_miss (keyed : tree.Keyed header path key)
    (unknown : s.cache.get? (key, searchPaths) = none) :
    r.dependencies tree header searchPaths s =
      match (r.scope tree searchPaths).discover path with
      | .error cause => (.error (.header cause), s)
      | .ok d => (.ok d.found, ⟨s.cache.set (key, searchPaths) d.found, s.events ++ d.events⟩) := by
  have fetched : s.cache.fetch tree path searchPaths = .ok none := by
    simp only [Cache.fetch, Cache.key, keyed.2, Except.map, unknown]
  rw [dependencies, keyed.1]
  dsimp only
  rw [fetched]
  dsimp only
  rw [resolveFresh]
  cases (r.scope tree searchPaths).discover path with
  | error cause => rfl
  | ok d => simp only [Cache.store, Cache.key, keyed.2, Except.map]

/-- A question changes nothing under the other keys. -/
theorem dependencies_keeps {other : Text} (keyed : tree.Keyed header path key) (differ : key ≠ other)
    (otherPaths : List Text) :
    (r.dependencies tree header searchPaths s).2.cache.get? (other, otherPaths) =
      s.cache.get? (other, otherPaths) := by
  cases known : s.cache.get? (key, searchPaths) with
  | some found =>
    rw [dependencies_hit keyed known]
    rfl
  | none =>
    rw [dependencies_miss keyed known]
    cases (r.scope tree searchPaths).discover path with
    | error cause => rfl
    | ok d =>
      refine Table.get?_set_of_ne (fun same => ?_) _ _
      cases same
      exact differ rfl

/-- Without a canonical path there is no answer, whatever is remembered. -/
theorem dependencies_astray (r : Resolver) (searchPaths : List Text)
    (astray : ¬∃ path key, tree.Keyed header path key) :
    ∃ cause, ∀ s, r.dependencies tree header searchPaths s = (.error (.path cause), s) := by
  unfold dependencies
  cases first : tree.canonical header with
  | error cause => exact ⟨cause, fun s => rfl⟩
  | ok path =>
    cases second : tree.canonical path with
    | error cause =>
      refine ⟨cause, fun s => ?_⟩
      simp only [Cache.fetch, Cache.key, second, Except.map]
    | ok key => exact absurd ⟨path, key, first, second⟩ astray

/-- What is answered about a header when nothing is remembered. -/
def answer (r : Resolver) (tree : FileTree) (searchPaths : List Text) (header : Text) :
    Except ResolveError (List Text) :=
  (r.dependencies tree header searchPaths .empty).1

theorem answer_of_keyed (r : Resolver) (searchPaths : List Text)
    (keyed : tree.Keyed header path key) :
    r.answer tree searchPaths header =
      match (r.scope tree searchPaths).discover path with
      | .error cause => .error (.header cause)
      | .ok d => .ok d.found := by
  rw [answer, dependencies_miss keyed rfl]
  cases (r.scope tree searchPaths).discover path <;> rfl

theorem answer_eq_ok (answered : r.answer tree searchPaths header = .ok found) :
    ∃ path key d, tree.Keyed header path key ∧ (r.scope tree searchPaths).discover path = .ok d ∧
      d.found = found := by
  by_cases known : ∃ path key, tree.Keyed header path key
  · obtain ⟨path, key, keyed⟩ := known
    rw [r.answer_of_keyed searchPaths keyed] at answered
    split at answered
    · cases answered
    next d discovered => exact ⟨path, key, d, keyed, discovered, Except.ok.inj answered⟩
  · obtain ⟨cause, failed⟩ := r.dependencies_astray searchPaths known
    rw [answer, failed] at answered
    cases answered

/-! ## Many questions -/

/-- What the session remembers under the key of a header that may be asked for is the answer. -/
def Truthful (r : Resolver) (tree : FileTree) (asked : Text → Prop) (s : Session) : Prop :=
  ∀ header path key searchPaths found, asked header → tree.Keyed header path key →
    s.cache.get? (key, searchPaths) = some found → r.answer tree searchPaths header = .ok found

/-- Headers that may be asked for and share a key have the same dependencies. -/
def KeysAgree (r : Resolver) (tree : FileTree) (asked : Text → Prop) : Prop :=
  ∀ header other path otherPath key searchPaths found, asked header → asked other →
    tree.Keyed header path key → tree.Keyed other otherPath key →
    r.answer tree searchPaths header = .ok found → r.answer tree searchPaths other = .ok found

theorem KeysAgree.mono {fewer : Text → Prop} (agree : r.KeysAgree tree asked)
    (within : ∀ header, fewer header → asked header) : r.KeysAgree tree fewer := by
  intro header other path otherPath key searchPaths found member otherMember
  exact agree header other path otherPath key searchPaths found (within header member)
    (within other otherMember)

theorem truthful_empty : r.Truthful tree asked .empty := by
  intro header path key searchPaths found _ _ known
  cases known

theorem Truthful.note (truthful : r.Truthful tree asked s) (event : Event) :
    r.Truthful tree asked (s.note event) := truthful

theorem Truthful.store (truthful : r.Truthful tree asked s) (agree : r.KeysAgree tree asked)
    (member : asked header) (keyed : tree.Keyed header path key)
    (answered : r.answer tree searchPaths header = .ok found) (events : List Event) :
    r.Truthful tree asked ⟨s.cache.set (key, searchPaths) found, events⟩ := by
  intro other otherPath otherKey otherPaths listed otherMember otherKeyed known
  rw [Table.get?_set] at known
  split at known
  next same =>
    -- the new list is now what is known about every header with the key
    cases same
    cases known
    exact agree header other path otherPath key searchPaths found member otherMember keyed
      otherKeyed answered
  next => exact truthful other otherPath otherKey otherPaths listed otherMember otherKeyed known

/-- Where headers that share a key agree, a truthful session answers as one that remembers nothing,
and stays truthful. -/
theorem dependencies_truthful (searchPaths : List Text) (agree : r.KeysAgree tree asked)
    (truthful : r.Truthful tree asked s) (member : asked header) :
    (r.dependencies tree header searchPaths s).1 = r.answer tree searchPaths header ∧
      r.Truthful tree asked (r.dependencies tree header searchPaths s).2 := by
  by_cases keyed : ∃ path key, tree.Keyed header path key
  · obtain ⟨path, key, keyed⟩ := keyed
    cases known : s.cache.get? (key, searchPaths) with
    | some found =>
      rw [dependencies_hit keyed known]
      exact ⟨(truthful header path key searchPaths found member keyed known).symm, truthful.note _⟩
    | none =>
      have answered := r.answer_of_keyed searchPaths keyed
      rw [dependencies_miss keyed known]
      cases discovered : (r.scope tree searchPaths).discover path with
      | error cause =>
        rw [discovered] at answered
        exact ⟨answered.symm, truthful⟩
      | ok d =>
        rw [discovered] at answered
        exact ⟨answered.symm, truthful.store agree member keyed answered _⟩
  · obtain ⟨cause, failed⟩ := r.dependencies_astray searchPaths keyed
    rw [answer, failed, failed]
    exact ⟨rfl, truthful⟩

/-- The answer depends on the canonical path alone, which is the key of a settled header. -/
theorem keysAgree_settled (r : Resolver) (tree : FileTree) : r.KeysAgree tree tree.Settled := by
  intro header other path otherPath key searchPaths found settled otherSettled keyed otherKeyed
    answered
  have same := settled.key_eq keyed
  have otherSame := otherSettled.key_eq otherKeyed
  subst same
  subst otherSame
  rw [r.answer_of_keyed searchPaths keyed] at answered
  rw [r.answer_of_keyed searchPaths otherKeyed]
  exact answered

/-! ## What the answers are -/

theorem answer_of_readable (r : Resolver) (searchPaths : List Text) {text : Text}
    (keyed : tree.Keyed header path key)
    (readable : readHeader tree path = .ok text) :
    ∃ found, r.answer tree searchPaths header = .ok found := by
  obtain ⟨d, discovered, -⟩ := (r.scope tree searchPaths).discover_ok readable
  exact ⟨d.found, by rw [r.answer_of_keyed searchPaths keyed, discovered]⟩

theorem answer_of_unreadable {cause : HeaderError} (keyed : tree.Keyed header path key)
    (unreadable : readHeader tree path = .error cause) :
    r.answer tree searchPaths header = .error (.header cause) := by
  rw [r.answer_of_keyed searchPaths keyed,
    (r.scope tree searchPaths).discover_error unreadable]

theorem mem_answer_iff (canonical : tree.canonical header = .ok path)
    (answered : r.answer tree searchPaths header = .ok found) :
    found.Nodup ∧
      ∀ target, target ∈ found ↔ TransGen (r.scope tree searchPaths).Includes path target := by
  obtain ⟨place, key, d, keyed, discovered, rfl⟩ := answer_eq_ok answered
  obtain rfl : path = place := by
    rw [keyed.1, Except.ok.injEq] at canonical
    exact canonical.symm
  exact Scope.mem_found_iff discovered

theorem answer_hasFile (answered : r.answer tree searchPaths header = .ok found) :
    found.Nodup ∧ ∀ target ∈ found, tree.HasFile target := by
  obtain ⟨path, key, d, -, discovered, rfl⟩ := answer_eq_ok answered
  exact Scope.found_hasFile discovered

end Resolver

end CHeader
