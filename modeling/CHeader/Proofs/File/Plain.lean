import CHeader.Proofs.File.Canonical

/-!
# Canonical paths are plain

A path without the character that ends file names has a canonical path, in a tree whose links and
working directory do not hold that character either. The canonical path is a root with names that a
directory can hold, so that tidying leaves it as it is, and it has a canonical path in turn.
-/
namespace CHeader

open Text

variable {tree : FileTree}

namespace FileTree

/-- Links lead to paths that can be spelled, and the working directory has a name at each level. -/
structure Sound (tree : FileTree) : Prop where
  links : ∀ location target, tree.lookup location = some (.link target) → '\x00' ∉ target
  working : ∀ name ∈ tree.workingDirectory, isName name = true

theorem sound_of_entries
    (links : ∀ location target, (location, Entry.link target) ∈ tree.entries → '\x00' ∉ target)
    (working : ∀ name ∈ tree.workingDirectory, isName name = true) : tree.Sound := by
  refine ⟨fun location target found => ?_, working⟩
  unfold lookup at found
  split at found
  · split at found
    · cases found
    · exact links location target (Table.mem_of_get? found)
  · cases found

/-! ## Names and spellings -/

/-- Names that a directory can hold. -/
def Named (names : List Text) : Prop := ∀ name ∈ names, isName name = true

/-- The pieces between the slashes of a path that can be spelled. -/
def Spelled (names : List Text) : Prop := ∀ name ∈ names, '/' ∉ name ∧ '\x00' ∉ name

theorem spelled_splitOn {path : Text} (absent : '\x00' ∉ path) : Spelled (splitOn '/' path) := by
  intro name member
  constructor
  · exact not_mem_of_mem_splitOn member
  · exact fun inside => absent (mem_of_mem_splitOn member inside)

theorem Named.concat {names : List Text} (named : Named names) {name : Text}
    (meaningful : ¬(name = [] ∨ name = ['.'])) (down : name ≠ ['.', '.'])
    (spelled : '/' ∉ name ∧ '\x00' ∉ name) : Named (names ++ [name]) := by
  intro other member
  rcases List.mem_append.mp member with before | last
  · exact named other before
  · rw [List.mem_singleton.mp last, isName_iff]
    exact ⟨(not_or.mp meaningful).1, (not_or.mp meaningful).2, down, spelled⟩

theorem Named.dropLast {names : List Text} (named : Named names) : Named names.dropLast :=
  fun name member => named name (List.dropLast_subset names member)

theorem Named.append {names more : List Text} (named : Named names) (others : Named more) :
    Named (names ++ more) := fun name member =>
  (List.mem_append.mp member).elim (named name) (others name)

theorem Named.spelled {names : List Text} (named : Named names) : Spelled names := fun name member =>
  ((isName_iff name).mp (named name member)).2.2.2

theorem Spelled.not_mem_joinWith {names : List Text} (spelled : Spelled names) :
    '\x00' ∉ joinWith ['/'] names :=
  Text.not_mem_joinWith (by decide) fun name member => (spelled name member).2

theorem not_mem_continueText {spelling rest : Text} (absent : '\x00' ∉ spelling)
    (clean : '\x00' ∉ rest) : '\x00' ∉ continueText spelling rest := by
  unfold continueText
  split
  · exact clean
  · split <;> simp [absent, clean]

theorem not_mem_locationText {location : Location} (named : Named location) :
    '\x00' ∉ locationText location := by
  simp [locationText, named.spelled.not_mem_joinWith]

theorem Named.splitOn_locationText {location : Location} (named : Named location)
    (filled : location ≠ []) : splitOn '/' (locationText location) = [] :: location := by
  rw [locationText, splitOn_cons_self, splitOn_joinWith filled]
  exact fun name member => (named.spelled name member).1

theorem not_mem_toText {path : Resolved} (named : Named path.names) : '\x00' ∉ path.toText := by
  unfold Resolved.toText
  split
  · exact not_mem_locationText named
  · refine Text.not_mem_joinWith (by decide) fun name member => ?_
    rcases List.mem_append.mp member with up | below
    · rw [List.eq_of_mem_replicate up]
      decide
    · exact (named.spelled name below).2

/-! ## Resolving -/

/-- The links that are known lead to paths with names. -/
def KnownNamed (met : LinkTable) : Prop :=
  ∀ link known, met.get? link = some (some known) → Named known.names

theorem KnownNamed.set {met : LinkTable} (plain : KnownNamed met) (link : Resolved)
    {state : Option Resolved} (named : ∀ known, state = some known → Named known.names) :
    KnownNamed (met.set link state) := by
  intro other known stored
  rw [Table.get?_set] at stored
  split at stored
  · exact named known (Option.some.inj stored)
  · exact plain other known stored

/-- What resolving names that can be spelled gives. -/
inductive PlainResult : Except PathError (Resolution × LinkTable) → Prop
  | reached {found : Resolved} {met : LinkTable} (named : Named found.names)
      (known : KnownNamed met) : PlainResult (.ok (.reached found, met))
  | looped {spelling : Text} {met : LinkTable} (absent : '\x00' ∉ spelling) :
      PlainResult (.ok (.looped spelling, met))

theorem named_above {path : Resolved} (named : Named path.names) : Named path.above.names := by
  unfold Resolved.above
  split
  · exact named
  · exact named.dropLast

theorem named_linkStart {here : Resolved} (named : Named here.names) (target : Text) :
    Named (if target.head? = some '/' then Resolved.root else here).names := by
  split
  · intro name member
    cases member
  · exact named

theorem plainResult_resolve (sound : tree.Sound) (fuel : Nat) (met : LinkTable) (here : Resolved)
    (names : List Text) (named : Named here.names) (known : KnownNamed met)
    (spelled : Spelled names) : PlainResult (tree.resolve fuel met here names) := by
  -- the induction follows the names; what is known of the links is carried along
  fun_induction FileTree.resolve tree fuel met here names with
  | case1 => exact .reached named known
  | case2 fuel met here name rest meaningless ih =>
    exact ih named known (List.forall_mem_cons.mp spelled).2
  | case3 fuel met here rest meaningful ih =>
    exact ih (named_above named) known (List.forall_mem_cons.mp spelled).2
  | case4 fuel met here name rest meaningful down ends =>
    exact absurd ends (List.forall_mem_cons.mp spelled).1.2
  | case5 fuel met here name rest meaningful down clean next target link found stored ih =>
    exact ih (known _ _ stored) known (List.forall_mem_cons.mp spelled).2
  | case6 fuel met here name rest meaningful down clean next loop target link pending =>
    obtain ⟨first, others⟩ := List.forall_mem_cons.mp spelled
    exact .looped (not_mem_continueText (not_mem_toText (named.concat meaningful down first))
      (Spelled.not_mem_joinWith others))
  | case7 met here name rest meaningful down clean next loop target link fresh =>
    obtain ⟨first, others⟩ := List.forall_mem_cons.mp spelled
    exact .looped (not_mem_continueText (not_mem_toText (named.concat meaningful down first))
      (Spelled.not_mem_joinWith others))
  | case8 met here name rest meaningful down clean next target link fresh fuel e failed ih =>
    have followed := ih (named_linkStart named target) (known.set next (by simp))
      (spelled_splitOn (sound.links _ _ link))
    rw [failed] at followed
    cases followed
  | case9 met here name rest meaningful down clean next target link fresh fuel spelling after
      looped ih =>
    have followed := ih (named_linkStart named target) (known.set next (by simp))
      (spelled_splitOn (sound.links _ _ link))
    rw [looped] at followed
    cases followed with
    | looped absent =>
      exact .looped (not_mem_continueText absent
        (Spelled.not_mem_joinWith (List.forall_mem_cons.mp spelled).2))
  | case10 met here name rest meaningful down clean next target link fresh fuel found after
      reached ihTarget ih =>
    have followed := ihTarget (named_linkStart named target) (known.set next (by simp))
      (spelled_splitOn (sound.links _ _ link))
    rw [reached] at followed
    cases followed with
    | reached namedFound knownAfter =>
      refine ih namedFound (knownAfter.set next ?_) (List.forall_mem_cons.mp spelled).2
      rintro _ ⟨⟩
      exact namedFound
  | case11 fuel met here name rest meaningful down clean next noLink ih =>
    obtain ⟨first, others⟩ := List.forall_mem_cons.mp spelled
    exact ih (named.concat meaningful down first) known others

/-! ## Canonical paths -/

/-- A root and names that a directory can hold. -/
def Plain (path : Text) : Prop :=
  ∃ root names, path = root ++ joinWith ['/'] names ∧ (root = ['/'] ∨ root = ['/', '/']) ∧
    Named names

theorem Plain.not_mem {path : Text} (plain : Plain path) : '\x00' ∉ path := by
  obtain ⟨root, names, rfl, rfl | rfl, named⟩ := plain
  · simp [named.spelled.not_mem_joinWith]
  · simp [named.spelled.not_mem_joinWith]

/-- Tidying drops nothing from a plain path. -/
theorem Plain.tidy {path : Text} (plain : Plain path) : Path.tidy path = path := by
  obtain ⟨root, names, rfl, rooted, named⟩ := plain
  exact tidy_of_isName rooted named

theorem named_literalNames {spelling : Text} (absent : '\x00' ∉ spelling) :
    Named (literalNames spelling) := by
  unfold literalNames
  refine List.foldlRecOn (splitOn '/' spelling) _ (b := []) (motive := Named) ?_ ?_
  · intro name member
    cases member
  · intro names named piece member
    split
    · exact named
    next meaningful =>
      split
      · exact named.dropLast
      next down => exact named.concat meaningful down (spelled_splitOn absent piece member)

/-- The rest of a path in which links run in a circle is tidied behind a root. -/
theorem plain_literalText {spelling : Text} (absent : '\x00' ∉ spelling)
    (rooted : spelling.head? = some '/') : Plain (literalText spelling) := by
  refine ⟨Path.rootOf spelling, literalNames spelling, rfl, ?_, named_literalNames absent⟩
  have first := mt (Path.rootOf_eq_nil_iff spelling).mp (not_not_intro rooted)
  unfold Path.rootOf at first ⊢
  split at first <;> simp_all

theorem head?_continueText (location : Location) (rest : Text) :
    (continueText (locationText location) rest).head? = some '/' := by
  unfold continueText
  split
  next absolute => exact absolute
  next =>
    split <;> rfl

theorem plainResult_resolution (sound : tree.Sound) {path : Text} (absent : '\x00' ∉ path) :
    PlainResult (tree.resolution path) := by
  have nothing : KnownNamed [] := by
    intro link known stored
    cases stored
  have start : Named (if path.head? = some '/' then Resolved.root else .working).names := by
    intro name member
    split at member <;> cases member
  exact plainResult_resolve sound _ [] _ _ start nothing (spelled_splitOn absent)

theorem canonical_plain (sound : tree.Sound) {path : Text} (absent : '\x00' ∉ path) :
    ∃ place, tree.canonical path = .ok place ∧ Plain place := by
  rw [canonical_eq]
  have result := plainResult_resolution sound absent
  generalize tree.resolution path = outcome at result ⊢
  cases result with
  | @reached found met named _ =>
    refine ⟨_, rfl, ['/'], found.location tree, rfl, Or.inl rfl, ?_⟩
    unfold Resolved.location
    split
    · exact named
    · refine Named.append (fun name member => ?_) named
      exact sound.working name (List.mem_of_mem_take member)
  | looped clean =>
    refine ⟨_, rfl, plain_literalText ?_ (head?_continueText _ _)⟩
    exact not_mem_continueText (not_mem_locationText sound.working) clean

end FileTree

end CHeader
