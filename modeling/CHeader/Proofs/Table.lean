import CHeader.Table
import Mathlib.Data.List.Induction
import Mathlib.Data.List.Nodup

/-!
# Keys and values of a table
-/
namespace CHeader.Table

variable {κ α : Type} [DecidableEq κ]

omit [DecidableEq κ] in
@[simp] theorem keys_nil : keys ([] : Table κ α) = [] := rfl

omit [DecidableEq κ] in
@[simp] theorem keys_cons (entry : κ × α) (table : Table κ α) :
    keys (entry :: table) = entry.1 :: keys table := rfl

theorem mem_of_get? {key : κ} {value : α} {table : Table κ α} (found : get? key table = some value) :
    (key, value) ∈ table := by
  induction table with
  | nil => cases found
  | cons entry rest ih =>
    obtain ⟨known, old⟩ := entry
    simp only [get?] at found
    split at found
    next same =>
      cases found
      simp [same]
    next => exact List.mem_cons_of_mem _ (ih found)

theorem mem_keys_of_get? {key : κ} {value : α} {table : Table κ α}
    (found : get? key table = some value) : key ∈ keys table :=
  List.mem_map_of_mem (mem_of_get? found)

theorem get?_of_mem {key : κ} {value : α} {table : Table κ α} (distinct : (keys table).Nodup)
    (member : (key, value) ∈ table) : get? key table = some value := by
  induction table with
  | nil => cases member
  | cons entry rest ih =>
    obtain ⟨known, old⟩ := entry
    obtain ⟨fresh, others⟩ := List.nodup_cons.mp distinct
    rcases List.mem_cons.mp member with same | later
    · cases same
      simp [get?]
    · have differ : known ≠ key := by
        rintro rfl
        exact fresh (List.mem_map.mpr ⟨(known, value), later, rfl⟩)
      simp only [get?, differ, ↓reduceIte]
      exact ih others later

theorem get?_eq_none_iff {key : κ} {table : Table κ α} :
    get? key table = none ↔ key ∉ keys table := by
  induction table with
  | nil => simp [get?]
  | cons entry rest ih =>
    obtain ⟨known, old⟩ := entry
    by_cases same : known = key
    · simp [get?, same]
    · simp [get?, same, Ne.symm same, ih]

theorem isSome_get?_iff {key : κ} {table : Table κ α} :
    (get? key table).isSome ↔ key ∈ keys table := by
  rw [← not_iff_not, ← get?_eq_none_iff]
  simp

theorem get?_append_of_eq_some {key : κ} {value : α} {table : Table κ α}
    (found : get? key table = some value) (more : Table κ α) :
    get? key (table ++ more) = some value := by
  induction table with
  | nil => cases found
  | cons entry rest ih =>
    obtain ⟨known, old⟩ := entry
    rw [get?] at found
    rw [List.cons_append, get?]
    split
    next same => rwa [if_pos same] at found
    next differ =>
      rw [if_neg differ] at found
      exact ih found

theorem get?_set (key other : κ) (value : α) (table : Table κ α) :
    get? other (set key value table) = if key = other then some value else get? other table := by
  split
  next same =>
    subst same
    exact get?_set_self key value table
  next differ => exact get?_set_of_ne differ value table

/-- Entering a value that is there already changes nothing. -/
theorem set_of_get?_eq_some {key : κ} {value : α} {table : Table κ α}
    (found : get? key table = some value) : set key value table = table := by
  induction table with
  | nil => cases found
  | cons entry rest ih =>
    obtain ⟨known, old⟩ := entry
    rw [get?] at found
    rw [set]
    split
    next same =>
      rw [if_pos same, Option.some.injEq] at found
      rw [found]
    next differ =>
      rw [if_neg differ] at found
      rw [ih found]

theorem eq_or_mem_of_mem_set {key : κ} {value : α} {table : Table κ α} {entry : κ × α}
    (member : entry ∈ set key value table) : entry = (key, value) ∨ entry ∈ table := by
  induction table with
  | nil => exact Or.inl (List.mem_singleton.mp member)
  | cons first rest ih =>
    obtain ⟨known, old⟩ := first
    rw [set] at member
    split at member
    next same =>
      rcases List.mem_cons.mp member with rfl | later
      · exact Or.inl (by rw [same])
      · exact Or.inr (List.mem_cons_of_mem _ later)
    next =>
      rcases List.mem_cons.mp member with rfl | later
      · exact Or.inr List.mem_cons_self
      · exact (ih later).imp_right (List.mem_cons_of_mem _)

theorem mem_keys_set {key other : κ} {value : α} {table : Table κ α} :
    other ∈ keys (set key value table) ↔ other = key ∨ other ∈ keys table := by
  by_cases known : key ∈ keys table
  · rw [keys_set_of_mem known]
    constructor
    · exact Or.inr
    · rintro (rfl | member)
      · exact known
      · exact member
  · rw [keys_set_of_not_mem known]
    simp [or_comm]

theorem nodup_keys_set {key : κ} {value : α} {table : Table κ α} (distinct : (keys table).Nodup) :
    (keys (set key value table)).Nodup := by
  by_cases known : key ∈ keys table
  · rwa [keys_set_of_mem known]
  · rw [keys_set_of_not_mem known]
    exact List.nodup_append.mpr ⟨distinct, List.nodup_singleton key, by
      rintro a member b alone rfl
      exact known (List.mem_singleton.mp alone ▸ member)⟩

theorem set_of_not_mem {key : κ} {value : α} {table : Table κ α} (fresh : key ∉ keys table) :
    set key value table = table ++ [(key, value)] := by
  induction table with
  | nil => rfl
  | cons entry rest ih =>
    obtain ⟨known, old⟩ := entry
    simp only [keys_cons, List.mem_cons, not_or] at fresh
    rw [set, if_neg (Ne.symm fresh.1), ih fresh.2]
    rfl

/-! ## Entering several entries -/

/-- The items are entered one after the other. -/
def update (table items : Table κ α) : Table κ α :=
  items.foldl (fun table (key, value) => set key value table) table

theorem update_concat (table items : Table κ α) (key : κ) (value : α) :
    update table (items ++ [(key, value)]) = set key value (update table items) :=
  List.foldl_concat ..

theorem update_append (table items others : Table κ α) :
    update table (items ++ others) = update (update table items) others :=
  List.foldl_append

theorem ofList_eq_update (items : Table κ α) : ofList items = update [] items := rfl

theorem update_of_nodup (table : Table κ α) {items : Table κ α}
    (distinct : (keys table ++ keys items).Nodup) : update table items = table ++ items := by
  rw [update]
  induction items generalizing table with
  | nil => simp
  | cons entry items ih =>
    obtain ⟨key, value⟩ := entry
    have fresh : key ∉ keys table := fun member =>
      (List.nodup_append.mp distinct).2.2 key member key List.mem_cons_self rfl
    have added : keys (table ++ [(key, value)]) ++ keys items =
        keys table ++ keys ((key, value) :: items) := by
      simp [keys]
    rw [List.foldl_cons]
    dsimp only
    rw [set_of_not_mem fresh, ih _ (added ▸ distinct), List.append_assoc]
    rfl

/-- Entries with different keys make up a table as they stand. -/
theorem ofList_eq_self {items : Table κ α} (distinct : (keys items).Nodup) :
    ofList items = items :=
  update_of_nodup [] distinct

theorem nodup_keys_update {table : Table κ α} (distinct : (keys table).Nodup)
    (items : Table κ α) : (keys (update table items)).Nodup := by
  induction items generalizing table with
  | nil => exact distinct
  | cons entry items ih => exact ih (nodup_keys_set distinct)

theorem nodup_keys_ofList (items : Table κ α) : (keys (ofList items)).Nodup := by
  have empty : (keys ([] : Table κ α)).Nodup := List.nodup_nil
  exact nodup_keys_update empty items

theorem mem_of_mem_ofList {items : Table κ α} {entry : κ × α} (member : entry ∈ ofList items) :
    entry ∈ items := by
  induction items using List.reverseRecOn with
  | nil => cases member
  | append_singleton items last ih =>
    rw [ofList_eq_update, update_concat] at member
    rcases eq_or_mem_of_mem_set member with rfl | before
    · simp
    · exact List.mem_append_left _ (ih before)

/-- The value that was entered last. -/
theorem get?_update (key : κ) (table items : Table κ α) :
    get? key (update table items) = (get? key (ofList items)).or (get? key table) := by
  induction items using List.reverseRecOn with
  | nil => rfl
  | append_singleton items last ih =>
    obtain ⟨entered, value⟩ := last
    rw [ofList_eq_update, update_concat, update_concat, get?_set, get?_set, ih]
    split <;> rfl

/-- New keys follow in the order in which they are entered. -/
theorem keys_update (table items : Table κ α) :
    keys (update table items) =
      keys table ++ (keys (ofList items)).filter (· ∉ keys table) := by
  induction items using List.reverseRecOn with
  | nil => simp [update, ofList]
  | append_singleton items last ih =>
    obtain ⟨key, value⟩ := last
    -- the last key takes a place of its own unless one of the two tables has it
    have known : key ∈ keys (update table items) ↔ key ∈ keys table ∨ key ∈ keys (ofList items) := by
      rw [ih]
      by_cases old : key ∈ keys table <;> simp [old]
    rw [ofList_eq_update, update_concat, update_concat, ← ofList_eq_update]
    by_cases entered : key ∈ keys (ofList items)
    · rw [keys_set_of_mem (known.mpr (Or.inr entered)), keys_set_of_mem entered, ih]
    · rw [keys_set_of_not_mem entered, List.filter_append]
      by_cases old : key ∈ keys table
      · rw [keys_set_of_mem (known.mpr (Or.inl old)), ih]
        simp [old]
      · rw [keys_set_of_not_mem fun member => (known.mp member).elim old entered, ih]
        simp [old]

/-- A table is determined by its keys, in their order, and by their values. -/
theorem ext_of_get? {table other : Table κ α} (distinct : (keys table).Nodup)
    (sameKeys : keys table = keys other) (same : ∀ key, get? key table = get? key other) :
    table = other := by
  induction table generalizing other with
  | nil => exact (List.map_eq_nil_iff.mp sameKeys.symm).symm
  | cons entry rest ih =>
    cases other with
    | nil => cases sameKeys
    | cons first others =>
      obtain ⟨key, value⟩ := entry
      simp only [keys_cons, List.cons.injEq] at sameKeys
      obtain ⟨rfl, onward⟩ := sameKeys
      obtain ⟨fresh, later⟩ := List.nodup_cons.mp distinct
      have here := same first.1
      simp only [get?, ↓reduceIte, Option.some.injEq] at here
      have rest_eq : rest = others := ih later onward fun other => by
        by_cases again : first.1 = other
        · -- the key stands in neither of the tables that are left
          rw [← again, get?_eq_none_iff.mpr fresh, get?_eq_none_iff.mpr (onward ▸ fresh)]
        · have answer := same other
          simpa only [get?, again, ↓reduceIte] using answer
      rw [here, rest_eq]

/-- Entering the entries of a table is entering the items that it was made of. -/
theorem update_ofList {table : Table κ α} (distinct : (keys table).Nodup) (items : Table κ α) :
    update table (ofList items) = update table items := by
  have again : ofList (ofList items) = ofList items := ofList_eq_self (nodup_keys_ofList items)
  apply ext_of_get? (nodup_keys_update distinct _)
  · rw [keys_update, keys_update, again]
  · intro key
    rw [get?_update, get?_update, again]

end CHeader.Table
