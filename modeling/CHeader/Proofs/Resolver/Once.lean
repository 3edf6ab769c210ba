import CHeader.Proofs.Distinct
import CHeader.Proofs.Resolver.Dependencies

/-!
# Headers are read once

A header that is met is entered in the list before it is opened, and a header that is being followed
is in the chain, so that neither is opened again: what is noted about a header is noted while it is
followed, and it is followed once. `Notes` says this of a part of a walk. All events of a discovery
are different, since a header has one text or one reason for not being read.

A walk knows headers by their paths. All that it meets is met under its own path, but the first header
need not be: its file is opened once more if it is met again.
-/
namespace CHeader

open Text Relation

namespace Scope

variable {scope : Scope}

/-- What following a header, or failing to read it, notes about the header itself. -/
inductive Concerns (scope : Scope) (header : Text) : Event → Prop
  | opened : Concerns scope header (.opened header)
  | missing (name : Text) : Concerns scope header (.missing name header)
  | notFollowed (cause : HeaderError) : readHeader scope.tree header = .error cause →
      Concerns scope header (.notFollowed header cause)

theorem Concerns.unique {header other : Text} {event : Event} (concerns : scope.Concerns header event)
    (again : scope.Concerns other event) : header = other := by
  cases concerns <;> cases again <;> rfl

/-- Looking up names of a header notes which of them are missing, and otherwise only what concerns
headers that are met for the first time and are not being followed. -/
structure Notes (scope : Scope) (chain : List Text) (path : Text) (names : List Text)
    (before after : Discovery) : Prop where
  kept : before.found ⊆ after.found
  noted : ∃ events, after.events = before.events ++ events ∧ events.Nodup ∧
    ∀ event ∈ events, (∃ name ∈ names, event = .missing name path) ∨
      ∃ header, scope.Concerns header event ∧ header ∈ after.found ∧ header ∉ before.found ∧
        header ∉ path :: chain
  opened : ∀ header ∈ after.found,
    header ∈ before.found ∨ header ∈ path :: chain ∨ .opened header ∈ after.events

namespace Notes

variable {chain names : List Text} {path name target : Text} {before middle after : Discovery}

/-- Nothing is noted, and nothing is met but what is being followed. -/
theorem quiet (same : after.events = before.events) (kept : before.found ⊆ after.found)
    (met : ∀ header ∈ after.found, header ∈ before.found ∨ header ∈ path :: chain) :
    scope.Notes chain path names before after :=
  ⟨kept, ⟨[], by rw [same, List.append_nil], List.nodup_nil, by simp⟩,
    fun header member => (met header member).imp_right Or.inl⟩

theorem cons (fresh : name ∉ names) (first : scope.Notes chain path [name] before middle)
    (later : scope.Notes chain path names middle after) :
    scope.Notes chain path (name :: names) before after := by
  obtain ⟨kept, ⟨events, noted, distinct, origin⟩, opened⟩ := first
  obtain ⟨keptLater, ⟨more, notedLater, distinctLater, originLater⟩, openedLater⟩ := later
  refine ⟨List.Subset.trans kept keptLater, ⟨events ++ more, ?_, ?_, fun event member => ?_⟩,
    fun header member => ?_⟩
  · rw [notedLater, noted, List.append_assoc]
  · refine List.nodup_append.mpr ⟨distinct, distinctLater, ?_⟩
    rintro event member _ again rfl
    -- the names differ, the header of the names is active, and a header is met once
    rcases origin event member with ⟨here, alone, rfl⟩ | ⟨header, concerns, known, -, inactive⟩
    · rcases originLater _ again with ⟨there, listed, same⟩ | ⟨header, concerns, -, -, inactive⟩
      · cases same
        exact fresh (List.mem_singleton.mp alone ▸ listed)
      · rw [← (Concerns.missing here).unique concerns] at inactive
        exact inactive List.mem_cons_self
    · rcases originLater event again with ⟨there, -, rfl⟩ | ⟨other, concernsOther, -, unknown, -⟩
      · rw [concerns.unique (.missing there)] at inactive
        exact inactive List.mem_cons_self
      · rw [concernsOther.unique concerns] at unknown
        exact unknown known
  · rcases List.mem_append.mp member with early | late
    · rcases origin event early with ⟨here, alone, same⟩ | ⟨header, concerns, known, rest⟩
      · exact Or.inl ⟨here, List.mem_singleton.mp alone ▸ List.mem_cons_self, same⟩
      · exact Or.inr ⟨header, concerns, keptLater known, rest⟩
    · rcases originLater event late with ⟨there, listed, same⟩ |
        ⟨header, concerns, known, unknown, inactive⟩
      · exact Or.inl ⟨there, List.mem_cons_of_mem name listed, same⟩
      · exact Or.inr ⟨header, concerns, known, fun old => unknown (kept old), inactive⟩
  · rcases openedLater header member with known | settled
    · rcases opened header known with old | active | early
      · exact Or.inl old
      · exact Or.inr (Or.inl active)
      · exact Or.inr (Or.inr (notedLater ▸ List.mem_append_left more early))
    · exact Or.inr settled

/-- A header is met and opened, and what follows concerns it or headers that are met later. -/
theorem enter {events : List Event} (fresh : target ∉ before.found)
    (inactive : target ∉ path :: chain)
    (kept : before.found ++ [target] ⊆ after.found)
    (noted : after.events = before.events ++ .opened target :: events) (distinct : events.Nodup)
    (origin : ∀ event ∈ events, event ≠ .opened target ∧ scope.Concerns target event ∨
      ∃ header, scope.Concerns header event ∧ header ∈ after.found ∧
        header ∉ before.found ++ [target] ∧ header ∉ target :: path :: chain)
    (opened : ∀ header ∈ after.found, header ∈ before.found ++ [target] ∨
      header ∈ target :: path :: chain ∨ .opened header ∈ after.events) :
    scope.Notes chain path names before after := by
  have met : target ∈ after.found := kept (by simp)
  have unopened : .opened target ∉ events := by
    intro again
    rcases origin _ again with ⟨differs, -⟩ | ⟨header, concerns, -, -, outside⟩
    · exact differs rfl
    · rw [← Concerns.opened.unique concerns] at outside
      exact outside List.mem_cons_self
  refine ⟨List.Subset.trans (List.subset_append_left _ _) kept, ⟨.opened target :: events, noted,
    List.nodup_cons.mpr ⟨unopened, distinct⟩, fun event member => Or.inr ?_⟩,
    fun header member => ?_⟩
  rcases List.mem_cons.mp member with rfl | later
  · exact ⟨target, .opened, met, fresh, inactive⟩
  · rcases origin event later with ⟨-, concerns⟩ | ⟨header, concerns, known, unknown, outside⟩
    · exact ⟨target, concerns, met, fresh, inactive⟩
    · exact ⟨header, concerns, known, fun old => unknown (List.mem_append_left _ old),
        fun active => outside (List.mem_cons_of_mem target active)⟩
  · have here : .opened target ∈ after.events := by simp [noted]
    rcases opened header member with known | active | later
    · rcases List.mem_append.mp known with old | new
      · exact Or.inl old
      · exact Or.inr (Or.inr (List.mem_singleton.mp new ▸ here))
    · rcases List.mem_cons.mp active with rfl | following
      · exact Or.inr (Or.inr here)
      · exact Or.inr (Or.inl following)
    · exact Or.inr (Or.inr later)

end Notes

variable {chain : List Text} {path : Text}

/-! ## The whole walk -/

theorem notes_meetName {fuel : Nat}
    (onward : ∀ target text d, scope.Notes (path :: chain) target (Include.extract text) d
      (scope.follow fuel (path :: chain) target text d)) (d : Discovery) (name : Text) :
    scope.Notes chain path [name] d (scope.meetName fuel chain path d name) := by
  unfold meetName
  split
  next missing =>
    refine ⟨List.Subset.refl _, ⟨[.missing name path], rfl, List.nodup_singleton _, ?_⟩,
      fun header known => Or.inl known⟩
    intro event member
    exact Or.inl ⟨name, List.mem_singleton_self name, List.mem_singleton.mp member⟩
  next target located =>
    split
    next known => exact .quiet rfl (List.Subset.refl _) fun header => Or.inl
    next fresh =>
      split
      next active =>
        refine .quiet rfl (List.subset_append_left _ _) fun header member => ?_
        refine (List.mem_append.mp member).imp_right fun new => ?_
        exact List.mem_singleton.mp new ▸ active
      next inactive =>
        dsimp only
        cases reading : readHeader scope.tree target with
        | error cause =>
          have noted : (d.events ++ [.opened target]) ++ [.notFollowed target cause] =
              d.events ++ .opened target :: [.notFollowed target cause] := List.append_assoc _ _ _
          refine .enter fresh inactive (List.Subset.refl _) noted (List.nodup_singleton _) ?_
            fun header => Or.inl
          intro event member
          cases List.mem_singleton.mp member
          exact Or.inl ⟨by simp, .notFollowed cause reading⟩
        | ok text =>
          obtain ⟨kept, ⟨events, noted, distinct, origin⟩, opened⟩ :=
            onward target text ((d.meet target).note (.opened target))
          refine .enter fresh inactive kept (noted.trans (List.append_assoc _ _ _)) distinct ?_ opened
          intro event member
          refine (origin event member).imp_left ?_
          rintro ⟨missing, -, rfl⟩
          exact ⟨by simp, .missing missing⟩

theorem notes_foldl {fuel : Nat} {names : List Text} (distinct : names.Nodup)
    (step : ∀ d name, scope.Notes chain path [name] d (scope.meetName fuel chain path d name))
    (d : Discovery) :
    scope.Notes chain path names d (names.foldl (scope.meetName fuel chain path) d) := by
  induction names generalizing d with
  | nil => exact .quiet rfl (List.Subset.refl _) fun header => Or.inl
  | cons name names ih =>
    obtain ⟨fresh, others⟩ := List.nodup_cons.mp distinct
    exact .cons fresh (step d name) (ih others _)

theorem notes_follow (scope : Scope) (fuel : Nat) (chain : List Text) (path text : Text)
    (d : Discovery) :
    scope.Notes chain path (Include.extract text) d (scope.follow fuel chain path text d) := by
  induction fuel generalizing chain path text d with
  | zero => exact .quiet rfl (List.Subset.refl _) fun header => Or.inl
  | succ fuel ih =>
    rw [follow_succ]
    exact notes_foldl (nodup_eraseDups _) (notes_meetName (ih (path :: chain))) d

/-- The events of a discovery are different, each concerns the first header or one that was met, and
all of these are opened. -/
theorem discover_events {d : Discovery} (discovered : scope.discover path = .ok d) :
    d.events.Nodup ∧
      (∀ event ∈ d.events, ∃ header, scope.Concerns header event ∧
        (header = path ∨ header ∈ d.found)) ∧
      ∀ header, .opened header ∈ d.events ↔ header = path ∨ header ∈ d.found := by
  cases readable : readHeader scope.tree path with
  | error cause =>
    rw [discover_error scope readable] at discovered
    cases discovered
  | ok text =>
    rw [discover, readable] at discovered
    cases discovered
    obtain ⟨-, ⟨events, noted, distinct, origin⟩, opened⟩ := scope.notes_follow
      (scope.tree.entries.length + 2) [] path text (Discovery.empty.note (.opened path))
    have unopened : .opened path ∉ events := by
      intro again
      rcases origin _ again with ⟨name, -, same⟩ | ⟨header, concerns, -, -, outside⟩
      · cases same
      · rw [← Concerns.opened.unique concerns] at outside
        exact outside List.mem_cons_self
    have about : ∀ event ∈ .opened path :: events, ∃ header, scope.Concerns header event ∧
        (header = path ∨ header ∈ (scope.follow (scope.tree.entries.length + 2) [] path text
          (Discovery.empty.note (.opened path))).found) := by
      intro event member
      rcases List.mem_cons.mp member with rfl | later
      · exact ⟨path, .opened, Or.inl rfl⟩
      · rcases origin event later with ⟨name, -, rfl⟩ | ⟨header, concerns, known, -⟩
        · exact ⟨path, .missing name, Or.inl rfl⟩
        · exact ⟨header, concerns, Or.inr known⟩
    rw [noted] at opened ⊢
    refine ⟨List.nodup_cons.mpr ⟨unopened, distinct⟩, about, fun header => ⟨fun member => ?_, ?_⟩⟩
    · obtain ⟨other, concerns, place⟩ := about _ member
      exact concerns.unique .opened ▸ place
    · rintro (rfl | met)
      · exact List.mem_cons_self
      · -- nothing was known when the walk started, and only the first header was being followed
        rcases (opened header met).resolve_left List.not_mem_nil with active | done
        · exact List.mem_singleton.mp active ▸ List.mem_cons_self
        · exact done

end Scope

/-! ## One question -/

/-- The event says that the header is not followed. -/
def Event.refuses (header : Text) : Event → Bool
  | .notFollowed path _ => path = header
  | _ => false

/-- The event opens the file at the location. -/
def FileTree.opens (tree : FileTree) (location : Location) : Event → Bool
  | .opened path => (tree.find? (Path.tidy path)).any fun (place, _) => place = location
  | _ => false

/-- No header is opened twice or reported twice as not followed, and no name is reported twice as
missing from one header. -/
structure Once (events : List Event) : Prop where
  opened : ∀ header, events.count (.opened header) ≤ 1
  notFollowed : ∀ header, events.countP (Event.refuses header) ≤ 1
  missing : ∀ name header, events.count (.missing name header) ≤ 1

namespace Resolver

variable {tree : FileTree} {r : Resolver} {header path key : Text} {searchPaths : List Text}
  {events : List Event}

theorem once_of_concerns (scope : Scope) (distinct : events.Nodup)
    (concerns : ∀ event ∈ events, ∃ header, scope.Concerns header event) : Once events := by
  refine ⟨fun header => List.nodup_iff_count_le_one.mp distinct _, fun header => ?_,
    fun name header => List.nodup_iff_count_le_one.mp distinct _⟩
  cases reading : readHeader scope.tree header with
  | ok text =>
    -- a header that is read is not reported
    have none : events.countP (Event.refuses header) = 0 := by
      rw [List.countP_eq_zero]
      intro event member refuses
      obtain ⟨other, about⟩ := concerns event member
      cases about with
      | opened => simp [Event.refuses] at refuses
      | missing => simp [Event.refuses] at refuses
      | notFollowed cause unreadable =>
        simp only [Event.refuses, decide_eq_true_eq] at refuses
        rw [refuses, reading] at unreadable
        cases unreadable
    omega
  | error cause =>
    have one : events.countP (Event.refuses header) ≤ events.count (.notFollowed header cause) := by
      refine List.countP_mono_left fun event member refuses => ?_
      obtain ⟨other, about⟩ := concerns event member
      cases about with
      | opened => simp [Event.refuses] at refuses
      | missing => simp [Event.refuses] at refuses
      | notFollowed why unreadable =>
        simp only [Event.refuses, decide_eq_true_eq] at refuses
        rw [refuses, reading, Except.error.injEq] at unreadable
        simp [refuses, unreadable]
    exact Nat.le_trans one (List.nodup_iff_count_le_one.mp distinct _)

/-! ## Files -/

/-- A file is opened under its own path. -/
theorem opens_of_hasFile {location : Location} (file : tree.HasFile header) :
    tree.opens location (.opened header) = true ↔
      header = FileTree.locationText location ∧
        ∃ contents, tree.lookup location = some (.file contents) := by
  obtain ⟨place, contents, rfl, present⟩ := file
  simp only [FileTree.opens, find?_tidy_locationText present, Option.any_some, decide_eq_true_eq]
  constructor
  · rintro rfl
    exact ⟨rfl, contents, present⟩
  · rintro ⟨same, others, again⟩
    have leads := find?_tidy_locationText again
    rw [← same, find?_tidy_locationText present, Option.some.injEq, Prod.mk.injEq] at leads
    exact leads.1

/-- The first header leads to the file at the location under another path, and the file is met. -/
structure MetAgain (tree : FileTree) (location : Location) (path : Text) (found : List Text) :
    Prop where
  leads : ∃ contents, tree.find? (Path.tidy path) = some (location, .file contents)
  differs : path ≠ FileTree.locationText location
  met : FileTree.locationText location ∈ found

/-- A file is opened under its own path, and under that of the first header if this leads to it. -/
theorem countP_opens {scope : Scope} {d : Discovery} (discovered : scope.discover path = .ok d)
    (location : Location) :
    d.events.countP (scope.tree.opens location) ≤ 2 ∧
      (1 < d.events.countP (scope.tree.opens location) ↔
        MetAgain scope.tree location path d.found) := by
  obtain ⟨text, readable⟩ := Scope.readable_of_discover discovered
  obtain ⟨place, contents, leads, -⟩ := readHeader_eq_ok_iff.mp readable
  have opensFirst : scope.tree.opens location (.opened path) = true ↔ place = location := by
    simp only [FileTree.opens, leads, Option.any_some, decide_eq_true_eq]
  obtain ⟨distinct, -, opened⟩ := Scope.discover_events discovered
  obtain ⟨-, files⟩ := Scope.found_hasFile discovered
  have among : d.events.filter (scope.tree.opens location) ⊆
      [.opened path, .opened (FileTree.locationText location)] := by
    intro event member
    obtain ⟨noted, opens⟩ := List.mem_filter.mp member
    cases event with
    | opened header =>
      rcases (opened header).mp noted with rfl | met
      · exact List.mem_cons_self
      · rw [((opens_of_hasFile (files header met)).mp opens).1]
        simp
    | _ => simp [FileTree.opens] at opens
  obtain ⟨bound, two⟩ := length_le_of_pair (distinct.filter _) among
  rw [List.countP_eq_length_filter]
  refine ⟨bound, two.trans ?_⟩
  simp only [List.mem_filter, opened, ne_eq, Event.opened.injEq, true_or, true_and, opensFirst]
  constructor
  · rintro ⟨differs, rfl, known, -⟩
    exact ⟨⟨contents, leads⟩, differs, known.resolve_left (Ne.symm differs)⟩
  · rintro ⟨⟨_, same⟩, differs, met⟩
    rw [leads, Option.some.injEq, Prod.mk.injEq] at same
    have present := FileTree.lookup_of_find? leads
    rw [same.1] at present
    exact ⟨differs, same.1, Or.inr met, (opens_of_hasFile (files _ met)).mpr ⟨rfl, contents, present⟩⟩

theorem once_nil : Once [] := ⟨by simp, by simp, by simp⟩

/-- What is met again has another canonical path than its own. -/
theorem MetAgain.unsettled {location : Location} {found : List Text}
    (again : MetAgain tree location path found) : tree.canonical path ≠ .ok path := by
  obtain ⟨contents, leads⟩ := again.leads
  rw [canonical_of_find?_tidy leads, ne_eq, Except.ok.injEq]
  exact again.differs.symm

theorem countP_opens_le_one {scope : Scope} {d : Discovery} (discovered : scope.discover path = .ok d)
    (own : scope.tree.canonical path = .ok path) (location : Location) :
    d.events.countP (scope.tree.opens location) ≤ 1 := by
  by_contra many
  exact ((countP_opens discovered location).2.mp (Nat.lt_of_not_le many)).unsettled own

theorem countP_opens_of_quiet {again : Location → Prop}
    (quiet : ∀ location, events.countP (tree.opens location) = 0)
    (never : ∀ location, ¬again location) :
    (tree.Settled header → ∀ location, events.countP (tree.opens location) ≤ 1) ∧
      ∀ location, events.countP (tree.opens location) ≤ 2 ∧
        (1 < events.countP (tree.opens location) ↔ again location) := by
  refine ⟨fun _ location => by simp [quiet location], fun location => ⟨by simp [quiet location], ?_⟩⟩
  exact iff_of_false (by simp [quiet location]) (never location)

/-- A header is known by the path under which it is opened. The canonical path of the root need not be
that of the file it leads to, and then the file is opened once more where it is met. -/
theorem dependencies_once (r : Resolver) (tree : FileTree) (header : Text) (searchPaths : List Text)
    (s : Session) :
    ∃ events, (r.dependencies tree header searchPaths s).2.events = s.events ++ events ∧
      Once events ∧
      (tree.Settled header → ∀ location, events.countP (tree.opens location) ≤ 1) ∧
      ∀ location, events.countP (tree.opens location) ≤ 2 ∧
        (1 < events.countP (tree.opens location) ↔ ∃ path found,
          tree.canonical header = .ok path ∧ s.cache.fetch tree path searchPaths = .ok none ∧
          (r.dependencies tree header searchPaths s).1 = .ok found ∧
          MetAgain tree location path found) := by
  by_cases keyed : ∃ path key, tree.Keyed header path key
  · obtain ⟨path, key, keyed⟩ := keyed
    have fetched : s.cache.fetch tree path searchPaths = .ok (s.cache.get? (key, searchPaths)) := by
      simp only [Cache.fetch, Cache.key, keyed.2, Except.map]
    cases known : s.cache.get? (key, searchPaths) with
    | some found =>
      rw [dependencies_hit keyed known]
      refine ⟨[.cacheHit path], rfl, ⟨by simp, by simp [Event.refuses], by simp⟩,
        countP_opens_of_quiet (fun location => by simp [FileTree.opens]) fun location => ?_⟩
      rintro ⟨place, _, same, missed, -⟩
      rw [keyed.1, Except.ok.injEq] at same
      rw [← same, fetched, known] at missed
      cases missed
    | none =>
      rw [dependencies_miss keyed known]
      cases discovered : (r.scope tree searchPaths).discover path with
      | error cause =>
        refine ⟨[], (List.append_nil _).symm, once_nil,
          countP_opens_of_quiet (fun location => List.countP_nil) fun location => ?_⟩
        rintro ⟨_, _, -, -, ⟨⟩, -⟩
      | ok d =>
        obtain ⟨distinct, origin, -⟩ := Scope.discover_events discovered
        have reads := countP_opens discovered
        refine ⟨d.events, rfl, once_of_concerns (r.scope tree searchPaths) distinct ?_,
          fun settled => countP_opens_le_one discovered (settled path keyed.1),
          fun location => ⟨(reads location).1, ?_⟩⟩
        · intro event member
          obtain ⟨about, concerns, -⟩ := origin event member
          exact ⟨about, concerns⟩
        · refine (reads location).2.trans ⟨fun again => ?_, ?_⟩
          · exact ⟨path, d.found, keyed.1, fetched.trans (congrArg _ known), rfl, again⟩
          · rintro ⟨place, found, same, -, listed, again⟩
            rw [keyed.1, Except.ok.injEq] at same
            cases listed
            exact same ▸ again
  · obtain ⟨cause, failed⟩ := r.dependencies_astray searchPaths keyed
    rw [failed]
    refine ⟨[], (List.append_nil _).symm, once_nil,
      countP_opens_of_quiet (fun location => List.countP_nil) fun location => ?_⟩
    rintro ⟨_, _, -, -, ⟨⟩, -⟩

theorem dependencies_once_mutual :
    mutualTree.Settled "a.h".toList ∧
      ∃ events, ((Resolver.mk []).dependencies mutualTree "a.h".toList [] .empty).2.events =
          Session.empty.events ++ events ∧
        Once events ∧ ∀ location, events.countP (mutualTree.opens location) ≤ 1 := by
  have readable : readHeader mutualTree "a.h".toList = .ok "#include \"b.h\"\n".toList := by cbv
  have settled := FileTree.settled_of_readable readable
  obtain ⟨events, noted, once, files, -⟩ := dependencies_once ⟨[]⟩ mutualTree "a.h".toList [] .empty
  exact ⟨settled, events, noted, once, files settled⟩

/-- A header that includes itself by its name seen from the directory above, where a link leads to
it. The canonical path of `l/../x.h` is that of the link. -/
def backTree : FileTree where
  entries := [
    (["s".toList], .directory),
    (["s".toList, "y.h".toList],
      .file (encode "#include \"s/y.h\"\n#include \"z.h\"\n".toList)),
    (["l".toList], .link "l".toList),
    (["x.h".toList], .link "s/y.h".toList)]
  workingDirectory := []
  denials := []

theorem dependencies_reread :
    ((Resolver.mk []).dependencies backTree "l/../x.h".toList [] .empty).2.events =
        [.opened "/x.h".toList, .opened "/s/y.h".toList,
          .missing "s/y.h".toList "/s/y.h".toList, .missing "z.h".toList "/s/y.h".toList,
          .missing "z.h".toList "/x.h".toList] ∧
      ((Resolver.mk []).dependencies backTree "l/../x.h".toList [] .empty).2.events.countP
        (backTree.opens ["s".toList, "y.h".toList]) = 2 := by
  have events : ((Resolver.mk []).dependencies backTree "l/../x.h".toList [] .empty).2.events =
      [.opened "/x.h".toList, .opened "/s/y.h".toList,
        .missing "s/y.h".toList "/s/y.h".toList, .missing "z.h".toList "/s/y.h".toList,
        .missing "z.h".toList "/x.h".toList] := by cbv
  refine ⟨events, ?_⟩
  rw [events]
  cbv

end Resolver

end CHeader
