import CHeader.Proofs.File.Walk
import CHeader.Proofs.Table
import Mathlib.Data.List.Perm.Subperm

/-!
# Canonical paths of files

Where names lead to an end, the names are resolved to that end: a link is never met again while its
own target is being followed, because the targets left to follow lead through fewer and fewer links.
So the canonical path of a path that leads to a file is the location of the file, and it is its own
canonical path.
-/
namespace CHeader

open Text

variable {tree : FileTree}

namespace Resolved

theorem location_child (path : Resolved) (name : Text) :
    (path.child name).location tree = path.location tree ++ [name] := by
  obtain ⟨ups, names⟩ := path
  cases ups <;> simp [child, location]

theorem location_above (path : Resolved) :
    path.above.location tree = (path.location tree).dropLast := by
  obtain ⟨ups, names⟩ := path
  by_cases bare : names = []
  · cases ups with
    | none => simp [above, location, bare]
    | some ups =>
      simp only [above, location, bare, ↓reduceIte, Option.map_some, List.append_nil,
        List.dropLast_eq_take, List.take_take, List.length_take]
      congr 1
      omega
  · cases ups <;> simp [above, location, bare, List.dropLast_append_of_ne_nil]

@[simp] theorem location_root : root.location tree = [] := rfl

@[simp] theorem location_working : working.location tree = tree.workingDirectory := by
  simp [working, location]

end Resolved

namespace FileTree

/-- The link at a location leads to another location. -/
def LinkLeads (tree : FileTree) (links : Nat) (location goal : Location) : Prop :=
  ∃ target, tree.lookup location = some (.link target) ∧
    tree.Leads links (linkStart location.dropLast target) (splitOn '/' target) goal

theorem LinkLeads.unique {links other : Nat} {location goal end_ : Location}
    (first : tree.LinkLeads links location goal) (second : tree.LinkLeads other location end_) :
    links = other ∧ goal = end_ := by
  obtain ⟨target, present, leads⟩ := first
  obtain ⟨_, again, leadsAgain⟩ := second
  rw [present, Option.some.injEq, Entry.link.injEq] at again
  subst again
  exact leads.unique leadsAgain

/-! ### The table of links

`active` holds the locations of the links whose targets are being followed. -/

/-- What the table of links says is so. -/
def KnownLeads (tree : FileTree) (met : LinkTable) : Prop :=
  ∀ link known, met.get? link = some (some known) →
    ∃ count, tree.LinkLeads count (link.location tree) (known.location tree)

theorem KnownLeads.set {met : LinkTable} {link : Resolved} {state : Option Resolved}
    (entries : tree.KnownLeads met)
    (leads : ∀ known, state = some known →
      ∃ count, tree.LinkLeads count (link.location tree) (known.location tree)) :
    tree.KnownLeads (met.set link state) := by
  intro other known stored
  rw [Table.get?_set] at stored
  split at stored
  next same => exact same ▸ leads known (Option.some.inj stored)
  next => exact entries other known stored

/-- What the table of links says is so, and every link that is being followed leads through at
least as many links as are left. -/
structure Met (tree : FileTree) (links : Nat) (active : List Location) (met : LinkTable) :
    Prop where
  known : tree.KnownLeads met
  pending : ∀ link, met.get? link = some none → link.location tree ∈ active
  distinct : active.Nodup
  longer : ∀ location ∈ active, ∃ count goal, links ≤ count ∧ tree.LinkLeads count location goal

theorem Met.fewer {links fewer : Nat} {active : List Location} {met : LinkTable}
    (inv : tree.Met links active met) (less : fewer ≤ links) : tree.Met fewer active met := by
  refine ⟨inv.known, inv.pending, inv.distinct, fun location member => ?_⟩
  obtain ⟨count, goal, atLeast, leads⟩ := inv.longer location member
  exact ⟨count, goal, by omega, leads⟩

/-- A link with a shorter way than those being followed is not one of them. -/
theorem Met.not_mem {links count : Nat} {active : List Location} {met : LinkTable}
    {location goal : Location} (inv : tree.Met links active met)
    (leads : tree.LinkLeads count location goal) (shorter : count < links) :
    location ∉ active := by
  intro member
  obtain ⟨longer, _, atLeast, again⟩ := inv.longer location member
  have equal := (leads.unique again).1
  omega

theorem Met.enter {links count : Nat} {active : List Location} {met : LinkTable} {link : Resolved}
    {goal : Location} (inv : tree.Met links active met)
    (leads : tree.LinkLeads count (link.location tree) goal) (shorter : count < links) :
    tree.Met count (link.location tree :: active) (met.set link none) := by
  refine ⟨inv.known.set (by simp), fun other stored => ?_, ?_, fun location member => ?_⟩
  · by_cases same : link = other
    · subst same
      exact List.mem_cons_self
    · rw [Table.get?_set_of_ne same] at stored
      exact List.mem_cons_of_mem _ (inv.pending other stored)
  · exact List.nodup_cons.mpr ⟨inv.not_mem leads shorter, inv.distinct⟩
  · rcases List.mem_cons.mp member with rfl | before
    · exact ⟨count, goal, Nat.le_refl count, leads⟩
    · obtain ⟨longer, end_, atLeast, others⟩ := inv.longer location before
      exact ⟨longer, end_, by omega, others⟩

/-- After a target has been followed, its link is known and the others are as they were. -/
theorem Met.leave {links count : Nat} {active : List Location} {met after : LinkTable}
    {link known : Resolved} (inv : tree.Met links active met)
    (leads : tree.LinkLeads count (link.location tree) (known.location tree))
    (entries : tree.KnownLeads after)
    (pending : ∀ other, after.get? other = some none → (met.set link none).get? other = some none) :
    tree.Met links active (after.set link (some known)) := by
  refine ⟨entries.set fun _ same => ⟨count, Option.some.inj same ▸ leads⟩, fun other stored => ?_,
    inv.distinct, inv.longer⟩
  · by_cases same : link = other
    · subst same
      simp at stored
    · rw [Table.get?_set_of_ne same] at stored
      have before := pending other stored
      rw [Table.get?_set_of_ne same] at before
      exact inv.pending other before

/-- No more links are being followed than the tree has entries. -/
theorem Met.length_le {links : Nat} {active : List Location} {met : LinkTable}
    (inv : tree.Met links active met) : active.length ≤ tree.entries.length := by
  -- the links being followed are distinct entries
  have inside : active ⊆ Table.keys tree.entries := by
    intro location member
    obtain ⟨_, _, _, target, present, _⟩ := inv.longer location member
    rcases List.eq_nil_or_concat location with rfl | ⟨directory, name, rfl⟩
    · simp [lookup] at present
    · rw [List.concat_eq_append] at present ⊢
      exact Table.mem_keys_of_get? (get?_of_lookup_append present)
  have bound := (inv.distinct.subperm inside).length_le
  simpa [Table.keys] using bound

/-! ### One step of resolving -/

theorem resolve_nil (fuel : Nat) (met : LinkTable) (here : Resolved) :
    tree.resolve fuel met here [] = .ok (.reached here, met) := by
  rw [resolve]

theorem resolve_skip {name : Text} (meaningless : name = [] ∨ name = ['.']) (fuel : Nat)
    (met : LinkTable) (here : Resolved) (rest : List Text) :
    tree.resolve fuel met here (name :: rest) = tree.resolve fuel met here rest := by
  rw [resolve, if_pos meaningless]

theorem resolve_up (fuel : Nat) (met : LinkTable) (here : Resolved) (rest : List Text) :
    tree.resolve fuel met here (['.', '.'] :: rest) = tree.resolve fuel met here.above rest := by
  rw [resolve, if_neg (by simp), if_pos rfl]

theorem resolve_enter {here : Resolved} {name : Text} (named : isName name = true)
    (plain : ∀ target, tree.lookup (here.location tree ++ [name]) ≠ some (.link target)) (fuel : Nat)
    (met : LinkTable) (rest : List Text) :
    tree.resolve fuel met here (name :: rest) = tree.resolve fuel met (here.child name) rest := by
  obtain ⟨meaningful, down, clean⟩ := proper_of_isName named
  rw [resolve, if_neg meaningful, if_neg down, if_neg clean]
  -- by `plain`, only the last case of what is looked up remains
  simp only [Resolved.location_child]

/-- How a name of a link is resolved: by the table, or by following its target. -/
theorem resolve_link {here : Resolved} {name target : Text}
    (present : tree.lookup (here.location tree ++ [name]) = some (.link target)) (fuel : Nat)
    (met : LinkTable) (rest : List Text) :
    (∀ known, met.get? (here.child name) = some (some known) →
      tree.resolve fuel met here (name :: rest) = tree.resolve fuel met known rest) ∧
    (met.get? (here.child name) = none → ∀ known after,
      tree.resolve fuel (met.set (here.child name) none)
          (if target.head? = some '/' then .root else here) (splitOn '/' target) =
        .ok (.reached known, after) →
      tree.resolve (fuel + 1) met here (name :: rest) =
        tree.resolve (fuel + 1) (after.set (here.child name) (some known)) known rest) := by
  obtain ⟨meaningful, down, clean⟩ := proper_of_lookup present
  constructor
  · intro known stored
    rw [resolve, if_neg meaningful, if_neg down, if_neg clean]
    simp only [Resolved.location_child, present, stored]
  · intro fresh known after followed
    rw [resolve, if_neg meaningful, if_neg down, if_neg clean]
    simp only [Resolved.location_child, present, fresh, followed]

theorem location_linkStart (here : Resolved) (target : Text) :
    (if target.head? = some '/' then Resolved.root else here).location tree =
      linkStart (here.location tree) target := by
  unfold linkStart
  split <;> rfl

/-! ### Whole paths -/

/-- Names are resolved to where they lead, and no link is left pending that was not before. -/
theorem resolve_of_leads {links : Nat} {start goal : Location} {names : List Text}
    (leads : tree.Leads links start names goal) (fuel : Nat) (active : List Location)
    (met : LinkTable) (here : Resolved) (starts : here.location tree = start)
    (inv : tree.Met links active met) (enough : tree.entries.length ≤ fuel + active.length) :
    ∃ found after, tree.resolve fuel met here names = .ok (.reached found, after) ∧
      found.location tree = goal ∧ tree.KnownLeads after ∧
      ∀ link, after.get? link = some none → met.get? link = some none := by
  induction leads generalizing fuel active met here with
  | done => exact ⟨here, met, resolve_nil fuel met here, starts, inv.known, fun _ => id⟩
  | skip meaningless _ ih =>
    rw [resolve_skip meaningless]
    exact ih fuel active met here starts inv enough
  | up _ ih =>
    rw [resolve_up]
    exact ih fuel active met here.above (by rw [Resolved.location_above, starts]) inv enough
  | enter named plain _ ih =>
    subst starts
    rw [resolve_enter named plain]
    exact ih fuel active met _ (Resolved.location_child here _) inv enough
  | @link inner outer start middle goal name target rest present through after ihThrough ihAfter =>
    subst starts
    have leads : tree.LinkLeads inner ((here.child name).location tree) middle := by
      refine ⟨target, ?_, ?_⟩
      · rw [Resolved.location_child]
        exact present
      · rw [Resolved.location_child, List.dropLast_concat]
        exact through
    cases stored : met.get? (here.child name) with
    | some state =>
      cases state with
      | some known =>
        -- the link was followed before, and links lead to one place only
        obtain ⟨count, before⟩ := inv.known _ _ stored
        have same := (before.unique leads).2
        rw [(resolve_link present fuel met rest).1 known stored]
        exact ihAfter fuel active met known same (inv.fewer (by omega)) enough
      | none =>
        -- it is being followed, and then it would lead through more links than it does
        exact absurd (inv.pending _ stored) (inv.not_mem leads (by omega))
    | none =>
      -- the target is followed with one step less, and then the rest of the names
      have entered := inv.enter leads (by omega)
      have room := entered.length_le
      rw [List.length_cons] at room
      obtain ⟨fuel, rfl⟩ : ∃ less, fuel = less + 1 := ⟨fuel - 1, by omega⟩
      obtain ⟨known, met', followed, reached, entries, pending⟩ :=
        ihThrough fuel _ _ _ (location_linkStart here target) entered
          (by rw [List.length_cons]; omega)
      subst reached
      rw [(resolve_link present fuel met rest).2 stored known met' followed]
      have left := inv.leave leads entries pending
      obtain ⟨found, after, resolved, arrived, entries', pending'⟩ :=
        ihAfter (fuel + 1) active _ known rfl (left.fewer (by omega)) enough
      refine ⟨found, after, resolved, arrived, entries', fun link none_after => ?_⟩
      have between := pending' link none_after
      by_cases same : here.child name = link
      · subst same
        simp at between
      · rw [Table.get?_set_of_ne same] at between
        have before := pending link between
        rwa [Table.get?_set_of_ne same] at before

/-- How the names of a path are resolved. -/
def resolution (tree : FileTree) (path : Text) : Except PathError (Resolution × LinkTable) :=
  tree.resolve (tree.entries.length * (tree.workingDirectory.length + 2)) []
    (if path.head? = some '/' then .root else .working) (splitOn '/' path)

theorem canonical_eq (tree : FileTree) (path : Text) : tree.canonical path =
    match tree.resolution path with
    | .error e => .error e
    | .ok (.reached found, _) => .ok (locationText (found.location tree))
    | .ok (.looped spelling, _) =>
      .ok (literalText (continueText (locationText tree.workingDirectory) spelling)) := rfl

theorem location_pathStart (tree : FileTree) (path : Text) :
    (if path.head? = some '/' then Resolved.root else .working).location tree =
      linkStart tree.workingDirectory path := by
  unfold linkStart
  split <;> simp

/-- A path with an end is resolved to the end. -/
theorem resolution_of_leads {links : Nat} {path : Text} {goal : Location}
    (leads : tree.Leads links (linkStart tree.workingDirectory path) (splitOn '/' path) goal) :
    ∃ found after, tree.resolution path = .ok (.reached found, after) ∧
      found.location tree = goal := by
  have nothing : tree.Met links [] [] :=
    ⟨by simp [KnownLeads, Table.get?], by simp [Table.get?], by simp, by simp⟩
  have enough : tree.entries.length ≤
      tree.entries.length * (tree.workingDirectory.length + 2) + ([] : List Location).length := by
    rw [List.length_nil, Nat.add_zero]
    exact Nat.le_mul_of_pos_right _ (by omega)
  obtain ⟨found, after, resolved, arrived, -⟩ :=
    resolve_of_leads leads _ [] [] _ (location_pathStart tree path) nothing enough
  exact ⟨found, after, resolved, arrived⟩

/-- The canonical path of a path with an end is the location of the end. -/
theorem canonical_of_leads {links : Nat} {path : Text} {goal : Location}
    (leads : tree.Leads links (linkStart tree.workingDirectory path) (splitOn '/' path) goal) :
    tree.canonical path = .ok (locationText goal) := by
  obtain ⟨found, after, resolved, rfl⟩ := resolution_of_leads leads
  rw [canonical_eq, resolved]

/-- A path that leads to a file has the location of the file for its canonical path. -/
theorem canonical_of_find? {path : Text} {location : Location} {contents : Bytes}
    (found : tree.find? path = some (location, .file contents)) :
    tree.canonical path = .ok (locationText location) := by
  unfold find? at found
  split at found
  · cases found
  · obtain ⟨links, leads⟩ := leads_of_follow found
    exact canonical_of_leads leads

theorem lookup_of_find? {path : Text} {location : Location} {contents : Bytes}
    (found : tree.find? path = some (location, .file contents)) :
    tree.lookup location = some (.file contents) := by
  unfold find? at found
  split at found
  · cases found
  · exact lookup_of_follow found

end FileTree

end CHeader
