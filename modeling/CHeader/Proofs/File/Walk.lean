import CHeader.File.Canonical
import CHeader.Proofs.File.Spelling

/-!
# Where names lead

`Leads` says where names lead from a location on, and through how many links. It needs no limit on
links: a walk that runs in a circle has no derivation. A name under which nothing is found leads on as
it stands. Following names finds what `Leads` says, and neither the end nor the number of links is a
choice.
-/
namespace CHeader.FileTree

open Text

variable {tree : FileTree}

/-- Where the target of a link in a directory starts. -/
def linkStart (directory : Location) (target : Text) : Location :=
  if target.head? = some '/' then [] else directory

inductive Leads (tree : FileTree) : Nat → Location → List Text → Location → Prop
  | done {start : Location} : Leads tree 0 start [] start
  | skip {links : Nat} {start goal : Location} {name : Text} {rest : List Text}
      (meaningless : name = [] ∨ name = ['.']) (after : Leads tree links start rest goal) :
      Leads tree links start (name :: rest) goal
  | up {links : Nat} {start goal : Location} {rest : List Text}
      (after : Leads tree links start.dropLast rest goal) :
      Leads tree links start (['.', '.'] :: rest) goal
  | enter {links : Nat} {start goal : Location} {name : Text} {rest : List Text}
      (named : isName name = true)
      (plain : ∀ target, tree.lookup (start ++ [name]) ≠ some (.link target))
      (after : Leads tree links (start ++ [name]) rest goal) :
      Leads tree links start (name :: rest) goal
  | link {inner outer : Nat} {start middle goal : Location} {name target : Text} {rest : List Text}
      (present : tree.lookup (start ++ [name]) = some (.link target))
      (through : Leads tree inner (linkStart start target) (splitOn '/' target) middle)
      (after : Leads tree outer middle rest goal) :
      Leads tree (inner + outer + 1) start (name :: rest) goal

/-! ## Names that are looked up -/

theorem isName_iff (name : Text) : isName name = true ↔
    name ≠ [] ∧ name ≠ ['.'] ∧ name ≠ ['.', '.'] ∧ '/' ∉ name ∧ '\x00' ∉ name := by
  simp [isName, and_assoc]

/-- A root with names that a directory can hold is tidy. -/
theorem tidy_of_isName {root : Text} {names : List Text} (rooted : root = ['/'] ∨ root = ['/', '/'])
    (named : ∀ name ∈ names, isName name = true) :
    Path.tidy (root ++ joinWith ['/'] names) = root ++ joinWith ['/'] names := by
  refine Path.tidy_append rooted (fun name member => ?_) fun name member => ?_
  · exact ((isName_iff name).mp (named name member)).2.2.2.1
  · have proper := (isName_iff name).mp (named name member)
    simp [Path.isMeaningful, proper]

theorem isName_of_lookup {location : Location} {entry : Entry}
    (present : tree.lookup location = some entry) : ∀ name ∈ location, isName name = true := by
  unfold lookup at present
  split at present
  next named =>
    simp only [Bool.and_eq_true, List.all_eq_true] at named
    exact named.1
  next => cases present

theorem isName_of_lookup_append {start : Location} {name : Text} {entry : Entry}
    (present : tree.lookup (start ++ [name]) = some entry) : isName name = true :=
  isName_of_lookup present name (by simp)

/-- A name that a directory can hold says neither to stay nor to go up. -/
theorem proper_of_isName {name : Text} (named : isName name = true) :
    ¬(name = [] ∨ name = ['.']) ∧ name ≠ ['.', '.'] ∧ '\x00' ∉ name := by
  have proper := (isName_iff name).mp named
  exact ⟨not_or.mpr ⟨proper.1, proper.2.1⟩, proper.2.2.1, proper.2.2.2.2⟩

theorem proper_of_lookup {start : Location} {name : Text} {entry : Entry}
    (present : tree.lookup (start ++ [name]) = some entry) :
    ¬(name = [] ∨ name = ['.']) ∧ name ≠ ['.', '.'] ∧ '\x00' ∉ name :=
  proper_of_isName (isName_of_lookup_append present)

/-- What is found and is no link is entered. -/
theorem Leads.enter_present {links : Nat} {start goal : Location} {name : Text} {rest : List Text}
    {entry : Entry} (present : tree.lookup (start ++ [name]) = some entry)
    (plain : ∀ target, entry ≠ .link target) (after : tree.Leads links (start ++ [name]) rest goal) :
    tree.Leads links start (name :: rest) goal := by
  apply Leads.enter (isName_of_lookup_append present) _ after
  intro target linked
  rw [present, Option.some.injEq] at linked
  exact plain target linked

theorem get?_of_lookup_append {start : Location} {name : Text} {entry : Entry}
    (present : tree.lookup (start ++ [name]) = some entry) :
    tree.entries.get? (start ++ [name]) = some entry := by
  unfold lookup at present
  split at present
  · simpa using present
  · cases present

/-! ## Links and ends are determined -/

theorem Leads.unique {links other : Nat} {start goal end_ : Location} {names : List Text}
    (first : tree.Leads links start names goal) (second : tree.Leads other start names end_) :
    links = other ∧ goal = end_ := by
  -- the first name and what is looked up under it say which rule was used
  induction first generalizing other end_ with
  | done =>
    cases second
    exact ⟨rfl, rfl⟩
  | skip meaningless after ih =>
    cases second with
    | skip _ again => exact ih again
    | up => simp at meaningless
    | enter named => exact absurd meaningless (proper_of_isName named).1
    | link present => exact absurd meaningless (proper_of_lookup present).1
  | up after ih =>
    cases second with
    | skip meaningless => simp at meaningless
    | up again => exact ih again
    | enter named => exact absurd rfl (proper_of_isName named).2.1
    | link present => exact absurd rfl (proper_of_lookup present).2.1
  | enter named plain after ih =>
    cases second with
    | skip meaningless => exact absurd meaningless (proper_of_isName named).1
    | up => exact absurd rfl (proper_of_isName named).2.1
    | enter _ _ again => exact ih again
    | link linked => exact absurd linked (plain _)
  | link present through after ihThrough ihAfter =>
    cases second with
    | skip meaningless => exact absurd meaningless (proper_of_lookup present).1
    | up => exact absurd rfl (proper_of_lookup present).2.1
    | enter _ plain => exact absurd present (plain _)
    | link linked throughAgain afterAgain =>
      rw [present, Option.some.injEq, Entry.link.injEq] at linked
      subst linked
      obtain ⟨rfl, rfl⟩ := ihThrough throughAgain
      obtain ⟨rfl, rfl⟩ := ihAfter afterAgain
      exact ⟨rfl, rfl⟩

/-! ## Parts of a walk -/

theorem Leads.append {links : Nat} {start goal : Location} {names rest : List Text}
    (whole : tree.Leads links start (names ++ rest) goal) :
    ∃ inner outer middle, tree.Leads inner start names middle ∧
      tree.Leads outer middle rest goal ∧ links = inner + outer := by
  induction names generalizing links start with
  | nil => exact ⟨0, links, start, .done, whole, by omega⟩
  | cons name names ih =>
    cases whole with
    | skip meaningless after =>
      obtain ⟨inner, outer, middle, front, back, sum⟩ := ih after
      exact ⟨inner, outer, middle, .skip meaningless front, back, sum⟩
    | up after =>
      obtain ⟨inner, outer, middle, front, back, sum⟩ := ih after
      exact ⟨inner, outer, middle, .up front, back, sum⟩
    | enter named plain after =>
      obtain ⟨inner, outer, middle, front, back, sum⟩ := ih after
      exact ⟨inner, outer, middle, .enter named plain front, back, sum⟩
    | link present through after =>
      obtain ⟨inner, outer, middle, front, back, sum⟩ := ih after
      exact ⟨_, outer, middle, .link present through front, back, by omega⟩

/-- Names that mean nothing can be left out or put in. -/
theorem leads_filter_iff {links : Nat} {start goal : Location} {names : List Text} :
    tree.Leads links start (names.filter Path.isMeaningful) goal ↔
      tree.Leads links start names goal := by
  induction names generalizing links start with
  | nil => rfl
  | cons name names ih =>
    by_cases meaningful : Path.isMeaningful name = true
    · rw [List.filter_cons_of_pos meaningful]
      have filled : ¬(name = [] ∨ name = ['.']) := by
        simpa [Path.isMeaningful] using meaningful
      constructor
      · intro leads
        cases leads with
        | skip meaningless => exact absurd meaningless filled
        | up after => exact .up (ih.mp after)
        | enter named plain after => exact .enter named plain (ih.mp after)
        | link present through after => exact .link present through (ih.mp after)
      · intro leads
        cases leads with
        | skip meaningless => exact absurd meaningless filled
        | up after => exact .up (ih.mpr after)
        | enter named plain after => exact .enter named plain (ih.mpr after)
        | link present through after => exact .link present through (ih.mpr after)
    · rw [List.filter_cons_of_neg meaningful, ih]
      have meaningless : name = [] ∨ name = ['.'] := by
        simp only [Path.isMeaningful, decide_eq_true_eq] at meaningful
        tauto
      constructor
      · exact .skip meaningless
      · intro leads
        cases leads with
        | skip _ after => exact after
        | up => simp at meaningless
        | enter named => exact absurd meaningless (proper_of_isName named).1
        | link present => exact absurd meaningless (proper_of_lookup present).1

/-! ## Following names -/

/-- What following names finds is where they lead. -/
theorem leads_of_follow {links : Nat} {start location : Location} {names : List Text}
    {entry : Entry} (found : tree.follow links start names = some (location, entry)) :
    ∃ count, tree.Leads count start names location := by
  fun_induction follow tree links start names with
  | case1 =>
    cases found
    exact ⟨0, .done⟩
  | case2 links start name rest meaningless ih =>
    obtain ⟨count, leads⟩ := ih found
    exact ⟨count, .skip meaningless leads⟩
  | case3 links start rest meaningful ih =>
    obtain ⟨count, leads⟩ := ih found
    exact ⟨count, .up leads⟩
  | case4 => cases found
  | case5 links start name rest meaningful down present ih =>
    obtain ⟨count, leads⟩ := ih found
    exact ⟨count, .enter_present present (by simp) leads⟩
  | case6 links start name meaningful down contents present =>
    cases found
    exact ⟨0, .enter_present present (by simp) .done⟩
  | case7 => cases found
  | case8 => cases found
  | case9 start name rest meaningful down target present links ih =>
    -- the target's names and those that are left were followed in one go
    obtain ⟨count, leads⟩ := ih found
    obtain ⟨before, after, middle, through, onward, sum⟩ := leads.append
    exact ⟨_, .link present through onward⟩

theorem lookup_of_follow {links : Nat} {start location : Location} {names : List Text}
    {contents : Bytes} (found : tree.follow links start names = some (location, .file contents)) :
    tree.lookup location = some (.file contents) := by
  fun_induction follow tree links start names with
  | case1 => cases found
  | case2 _ _ _ _ _ ih => exact ih found
  | case3 _ _ _ _ ih => exact ih found
  | case4 => cases found
  | case5 _ _ _ _ _ _ _ ih => exact ih found
  | case6 _ _ _ _ _ _ present =>
    cases found
    exact present
  | case7 => cases found
  | case8 => cases found
  | case9 _ _ _ _ _ _ _ _ ih => exact ih found

end CHeader.FileTree
