import CHeader.Proofs.File.Canonical
import CHeader.Proofs.File.Plain

/-!
# Canonical paths are fixpoints

A location is real if no link stands at it or above it. Wherever names lead from a real location is
real again: links are replaced by what they lead to, whether their targets start at the root or not,
go up, lead through other links or through names under which nothing is found. The names of a real
location lead to it through no link at all. So the canonical path of a path that meets no link that
leads back to itself spells a real location, and it is its own canonical path.
-/
namespace CHeader.FileTree

open Text

variable {tree : FileTree} {start goal location : Location} {names : List Text} {path : Text}

/-! ## Real locations -/

/-- A location with names that a directory can hold, none of which is the name of a link. -/
structure Real (tree : FileTree) (location : Location) : Prop where
  named : Named location
  direct : ∀ depth target, tree.lookup (location.take depth) ≠ some (.link target)

theorem real_root (tree : FileTree) : tree.Real [] := by
  constructor
  · intro name member
    cases member
  · intro depth target
    simp [lookup]

theorem Real.dropLast (real : tree.Real location) : tree.Real location.dropLast := by
  constructor
  · exact real.named.dropLast
  · intro depth target
    rw [List.dropLast_eq_take, List.take_take]
    exact real.direct _ target

theorem Real.concat {name : Text} (real : tree.Real location) (named : isName name = true)
    (plain : ∀ target, tree.lookup (location ++ [name]) ≠ some (.link target)) :
    tree.Real (location ++ [name]) := by
  constructor
  · exact real.named.append fun other member => List.mem_singleton.mp member ▸ named
  · intro depth target
    rcases Nat.lt_or_ge location.length depth with whole | above
    · rw [List.take_of_length_le (by simp; omega)]
      exact plain target
    · rw [List.take_append_of_le_length above]
      exact real.direct depth target

/-- A target starts at the root or where the link stands. -/
theorem Real.linkStart (real : tree.Real location) (target : Text) :
    tree.Real (linkStart location target) := by
  rw [FileTree.linkStart]
  split
  · exact real_root tree
  · exact real

/-- Where names lead from a real location is a real location. -/
theorem Leads.real {links : Nat} (leads : tree.Leads links start names goal)
    (real : tree.Real start) : tree.Real goal := by
  -- a link is never entered itself: what is behind it starts where its target ends
  induction leads with
  | done => exact real
  | skip _ _ ih => exact ih real
  | up _ ih => exact ih real.dropLast
  | enter named plain _ ih => exact ih (real.concat named plain)
  | link _ _ _ ihThrough ihAfter => exact ihAfter (ihThrough (real.linkStart _))

/-- The names of a real location lead to it, through no link. -/
theorem Real.leads (real : tree.Real (start ++ names)) :
    tree.Leads 0 start names (start ++ names) := by
  induction names generalizing start with
  | nil =>
    rw [List.append_nil]
    exact .done
  | cons name rest ih =>
    have whole : start ++ name :: rest = start ++ [name] ++ rest := by simp
    apply Leads.enter
    · exact real.named name (by simp)
    · intro target
      have above := real.direct (start.length + 1) target
      rwa [whole, List.take_append_of_le_length (by simp), List.take_of_length_le (by simp)] at above
    · rw [whole] at real ⊢
      exact ih real

/-- The path of a real location is its own canonical path. -/
theorem Real.canonical (real : tree.Real location) :
    tree.canonical (locationText location) = .ok (locationText location) := by
  have absolute : (locationText location).head? = some '/' := rfl
  have leads : tree.Leads 0 (FileTree.linkStart tree.workingDirectory (locationText location))
      (splitOn '/' (locationText location)) location := by
    rw [FileTree.linkStart, if_pos absolute]
    by_cases root : location = []
    · -- the root is spelled with two empty names
      rw [root]
      exact .skip (Or.inl rfl) (.skip (Or.inl rfl) .done)
    · rw [real.named.splitOn_locationText root]
      have whole : tree.Real ([] ++ location) := real
      exact .skip (Or.inl rfl) whole.leads
  exact canonical_of_leads leads

/-! ## Names that are resolved -/

/-- What names are resolved to is where they lead, and the table stays right. -/
def LeadsTo (tree : FileTree) (start : Location) (names : List Text)
    (outcome : Except PathError (Resolution × LinkTable)) : Prop :=
  ∀ found after, outcome = .ok (.reached found, after) →
    (∃ count, tree.Leads count start names (found.location tree)) ∧ tree.KnownLeads after

theorem leadsTo_resolve (fuel : Nat) (met : LinkTable) (here : Resolved) (names : List Text)
    (slashless : ∀ name ∈ names, '/' ∉ name) (entries : tree.KnownLeads met) :
    tree.LeadsTo (here.location tree) names (tree.resolve fuel met here names) := by
  -- the induction follows the names; what the table says is carried from one to the next
  fun_induction FileTree.resolve tree fuel met here names with
  | case1 fuel met here =>
    rintro found after ⟨⟩
    exact ⟨⟨0, .done⟩, entries⟩
  | case2 fuel met here name rest meaningless ih =>
    intro found after resolved
    obtain ⟨⟨count, leads⟩, later⟩ :=
      ih (List.forall_mem_cons.mp slashless).2 entries found after resolved
    exact ⟨⟨count, .skip meaningless leads⟩, later⟩
  | case3 fuel met here rest meaningful ih =>
    intro found after resolved
    obtain ⟨⟨count, leads⟩, later⟩ :=
      ih (List.forall_mem_cons.mp slashless).2 entries found after resolved
    rw [Resolved.location_above] at leads
    exact ⟨⟨count, .up leads⟩, later⟩
  | case4 fuel met here name rest meaningful down ends =>
    rintro found after ⟨⟩
  | case5 fuel met here name rest meaningful down clean next target link known stored ih =>
    intro found after resolved
    obtain ⟨⟨count, leads⟩, later⟩ :=
      ih (List.forall_mem_cons.mp slashless).2 entries found after resolved
    -- the link leads where it led when it was met before
    obtain ⟨inner, other, present, through⟩ := entries _ _ stored
    rw [Resolved.location_child] at present through
    rw [List.dropLast_concat] at through
    exact ⟨⟨_, .link present through leads⟩, later⟩
  | case6 fuel met here name rest meaningful down clean next loop target link pending =>
    intro found after resolved
    simp [loop] at resolved
  | case7 met here name rest meaningful down clean next loop target link fresh =>
    intro found after resolved
    simp [loop] at resolved
  | case8 met here name rest meaningful down clean next target link fresh fuel e failed ih =>
    rintro found after ⟨⟩
  | case9 met here name rest meaningful down clean next target link fresh fuel spelling between
      looped ih =>
    rintro found after ⟨⟩
  | case10 met here name rest meaningful down clean next target link fresh fuel known between
      reached ihTarget ih =>
    intro found after resolved
    obtain ⟨⟨inner, through⟩, entered⟩ := ihTarget (fun _ => not_mem_of_mem_splitOn)
      (entries.set (by simp)) known between reached
    rw [dite_eq_ite, location_linkStart] at through
    have present : tree.lookup (here.location tree ++ [name]) = some (.link target) := by
      rw [← Resolved.location_child]
      exact link
    have leadsLink : tree.LinkLeads inner (next.location tree) (known.location tree) := by
      refine ⟨target, link, ?_⟩
      rw [Resolved.location_child, List.dropLast_concat]
      exact through
    obtain ⟨⟨outer, leads⟩, later⟩ := ih (List.forall_mem_cons.mp slashless).2
      (entered.set fun _ same => ⟨inner, Option.some.inj same ▸ leadsLink⟩) found after resolved
    exact ⟨⟨_, .link present through leads⟩, later⟩
  | case11 fuel met here name rest meaningful down clean next noLink ih =>
    intro found after resolved
    obtain ⟨first, others⟩ := List.forall_mem_cons.mp slashless
    obtain ⟨⟨count, leads⟩, later⟩ := ih others entries found after resolved
    have named : isName name = true :=
      (isName_iff name).mpr ⟨(not_or.mp meaningful).1, (not_or.mp meaningful).2, down, first, clean⟩
    rw [Resolved.location_child] at leads
    refine ⟨⟨count, .enter named (fun target linked => ?_) leads⟩, later⟩
    rw [← Resolved.location_child] at linked
    exact noLink target linked

/-! ## Paths without loops -/

/-- The path leads somewhere, so no link on the way leads back to itself. -/
def LoopFree (tree : FileTree) (path : Text) : Prop :=
  ∃ links goal, tree.Leads links (linkStart tree.workingDirectory path) (splitOn '/' path) goal

/-- The paths without loops are those that are resolved to an end. -/
theorem loopFree_iff_reached :
    tree.LoopFree path ↔ ∃ found after, tree.resolution path = .ok (.reached found, after) := by
  constructor
  · rintro ⟨links, goal, leads⟩
    obtain ⟨found, after, resolved, -⟩ := resolution_of_leads leads
    exact ⟨found, after, resolved⟩
  · rintro ⟨found, after, resolved⟩
    have nothing : tree.KnownLeads [] := by
      intro link known stored
      cases stored
    obtain ⟨⟨count, leads⟩, -⟩ := leadsTo_resolve _ [] _ _ (fun _ => not_mem_of_mem_splitOn) nothing
      found after resolved
    rw [location_pathStart] at leads
    exact ⟨count, _, leads⟩

/-! ## Fixpoints -/

/-- The path of a real location. It starts at the root, and no name in it is empty, a dot, two dots or
the name of a link. -/
def IsCanonical (tree : FileTree) (place : Text) : Prop :=
  ∃ location, place = locationText location ∧ tree.Real location

theorem IsCanonical.canonical {place : Text} (isCanonical : tree.IsCanonical place) :
    tree.canonical place = .ok place := by
  obtain ⟨location, rfl, real⟩ := isCanonical
  exact real.canonical

theorem canonical_of_loopFree (working : tree.Real tree.workingDirectory)
    (loopFree : tree.LoopFree path) :
    ∃ place, tree.canonical path = .ok place ∧ tree.IsCanonical place := by
  obtain ⟨links, goal, leads⟩ := loopFree
  exact ⟨locationText goal, canonical_of_leads leads, goal, rfl, leads.real (working.linkStart path)⟩

end CHeader.FileTree
