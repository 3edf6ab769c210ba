import Mathlib.Data.List.Basic
import Mathlib.Data.List.Induction
import Mathlib.Data.List.Perm.Subperm

/-!
# First occurrences

A list without its later occurrences is distinct, and it does not matter whether the parts of a list
are freed of them before they are put together.
-/
namespace CHeader

variable {α : Type} [BEq α] [LawfulBEq α]

theorem nodup_eraseDups (items : List α) : items.eraseDups.Nodup := by
  match items with
  | [] => simp
  | first :: rest =>
    rw [List.eraseDups_cons, List.nodup_cons]
    refine ⟨fun again => ?_, nodup_eraseDups _⟩
    simpa using (List.mem_filter.mp (List.mem_eraseDups.mp again)).2
termination_by items.length
decreasing_by exact Nat.lt_succ_of_le (List.length_filter_le _ _)

theorem eraseDups_eq_self {items : List α} (distinct : items.Nodup) : items.eraseDups = items := by
  induction items with
  | nil => rfl
  | cons first rest ih =>
    obtain ⟨fresh, distinctRest⟩ := List.nodup_cons.mp distinct
    have others : rest.filter (fun item => !item == first) = rest := by
      rw [List.filter_eq_self]
      intro item member
      simpa using fun same : item = first => fresh (same ▸ member)
    rw [List.eraseDups_cons, others, ih distinctRest]

theorem filter_eraseDups (keep : α → Bool) (items : List α) :
    items.eraseDups.filter keep = (items.filter keep).eraseDups := by
  match items with
  | [] => rfl
  | first :: rest =>
    have later := filter_eraseDups keep (rest.filter fun item => !item == first)
    rw [List.eraseDups_cons]
    cases kept : keep first with
    | true =>
      rw [List.filter_cons_of_pos kept, List.filter_cons_of_pos kept, List.eraseDups_cons, later,
        List.filter_comm]
    | false =>
      -- the later occurrences of an item that is not kept are not kept either
      have gone : (rest.filter fun item => !item == first).filter keep = rest.filter keep := by
        rw [List.filter_filter]
        refine List.filter_congr fun item _ => ?_
        by_cases same : item = first
        · simp [same, kept]
        · simp [same]
      rw [List.filter_cons_of_neg (by simp [kept]), List.filter_cons_of_neg (by simp [kept]), later,
        gone]
termination_by items.length
decreasing_by exact Nat.lt_succ_of_le (List.length_filter_le _ _)

theorem eraseDups_append_eraseDups (front back : List α) :
    (front ++ back.eraseDups).eraseDups = (front ++ back).eraseDups := by
  rw [List.eraseDups_append, List.eraseDups_append, List.removeAll, filter_eraseDups,
    eraseDups_eq_self (nodup_eraseDups _), List.removeAll]

theorem eraseDups_eraseDups_append (front back : List α) :
    (front.eraseDups ++ back).eraseDups = (front ++ back).eraseDups := by
  have same : back.removeAll front.eraseDups = back.removeAll front :=
    List.filter_congr fun item _ => by simp
  rw [List.eraseDups_append, List.eraseDups_append, eraseDups_eq_self (nodup_eraseDups front), same]

/-- What stands in front already adds nothing. -/
theorem eraseDups_append_of_subset {front back : List α} (distinct : front.Nodup)
    (known : back ⊆ front) : (front ++ back).eraseDups = front := by
  have nothing : back.removeAll front = [] := by
    rw [List.removeAll, List.filter_eq_nil_iff]
    intro item member
    simpa using known member
  rw [List.eraseDups_append, nothing, List.eraseDups_nil, List.append_nil,
    eraseDups_eq_self distinct]

theorem eraseDups_concat (items : List α) (item : α) :
    (items ++ [item]).eraseDups =
      if item ∈ items then items.eraseDups else items.eraseDups ++ [item] := by
  rw [List.eraseDups_append]
  split
  next known => simp [List.removeAll, known]
  next fresh => simp [List.removeAll, fresh, List.eraseDups_cons]

/-- Each item once, in the order of first occurrences. -/
structure FirstOccurrences (items found : List α) : Prop where
  members : ∀ item, item ∈ found ↔ item ∈ items
  ordered : found.Pairwise fun first second => items.idxOf first < items.idxOf second

theorem firstOccurrences_eraseDups (items : List α) : FirstOccurrences items items.eraseDups where
  members item := List.mem_eraseDups
  ordered := by
    induction items using List.reverseRecOn with
    | nil => exact .nil
    | append_singleton items item ih =>
      -- what occurred before keeps its place
      have before {other : α} (known : other ∈ items) :
          (items ++ [item]).idxOf other = items.idxOf other := List.idxOf_append_of_mem known
      have earlier : items.eraseDups.Pairwise fun first second =>
          (items ++ [item]).idxOf first < (items ++ [item]).idxOf second :=
        ih.imp_of_mem fun first second order => by
          rwa [before (List.mem_eraseDups.mp first), before (List.mem_eraseDups.mp second)]
      rw [eraseDups_concat]
      split
      next => exact earlier
      next fresh =>
        refine List.pairwise_append.mpr ⟨earlier, List.pairwise_singleton .., ?_⟩
        intro first member last alone
        have known := List.mem_eraseDups.mp member
        rw [List.mem_singleton.mp alone, before known, List.idxOf_append_of_notMem fresh]
        exact Nat.lt_add_right _ (List.idxOf_lt_length_of_mem known)

/-- Of two things at most two are in a list without duplicates, and two if they differ. -/
theorem length_le_of_pair {α : Type} {items : List α} {first second : α} (distinct : items.Nodup)
    (among : items ⊆ [first, second]) :
    items.length ≤ 2 ∧ (1 < items.length ↔ first ≠ second ∧ first ∈ items ∧ second ∈ items) := by
  constructor
  · exact (distinct.subperm among).length_le
  constructor
  · intro two
    have other (only : α) : ∃ item ∈ items, item ≠ only := by
      by_contra alone
      have inside : items ⊆ [only] := by
        intro item member
        by_contra different
        exact alone ⟨item, member, fun same => different (List.mem_singleton.mpr same)⟩
      have bound := (distinct.subperm inside).length_le
      rw [List.length_singleton] at bound
      omega
    obtain ⟨item, member, notFirst⟩ := other first
    obtain ⟨rest, memberRest, notSecond⟩ := other second
    have isSecond := (List.mem_pair.mp (among member)).resolve_left notFirst
    have isFirst := (List.mem_pair.mp (among memberRest)).resolve_right notSecond
    subst isSecond isFirst
    exact ⟨notSecond, memberRest, member⟩
  · rintro ⟨differ, firstMember, secondMember⟩
    have pair : [first, second].Nodup := by simp [differ]
    have inside : [first, second] ⊆ items := by simp [firstMember, secondMember]
    exact (pair.subperm inside).length_le

end CHeader
