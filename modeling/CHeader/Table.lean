/-!
# Tables

A table lists its keys in the order in which they were first entered; entering a key again replaces
its value and keeps its place.
-/
namespace CHeader

abbrev Table (κ α : Type) := List (κ × α)

namespace Table

variable {κ α : Type} [DecidableEq κ]

def get? (key : κ) : Table κ α → Option α
  | [] => none
  | (known, value) :: rest => if known = key then some value else get? key rest

def set (key : κ) (value : α) : Table κ α → Table κ α
  | [] => [(key, value)]
  | (known, old) :: rest =>
    if known = key then (known, value) :: rest else (known, old) :: set key value rest

def ofList (items : List (κ × α)) : Table κ α :=
  items.foldl (fun table (key, value) => set key value table) []

omit [DecidableEq κ] in
def keys (table : Table κ α) : List κ := table.map Prod.fst

@[simp] theorem get?_set_self (key : κ) (value : α) (table : Table κ α) :
    get? key (set key value table) = some value := by
  induction table with
  | nil => simp [set, get?]
  | cons entry rest ih =>
    by_cases same : entry.1 = key <;> simp [set, get?, same, ih]

theorem get?_set_of_ne {key other : κ} (differ : key ≠ other) (value : α) (table : Table κ α) :
    get? other (set key value table) = get? other table := by
  induction table with
  | nil => simp [set, get?, differ]
  | cons entry rest ih =>
    obtain ⟨known, old⟩ := entry
    by_cases same : known = key
    · simp [set, get?, same, differ]
    · simp [set, get?, same, ih]

theorem keys_set_of_mem {key : κ} {value : α} {table : Table κ α} (known : key ∈ keys table) :
    keys (set key value table) = keys table := by
  induction table with
  | nil => simp [keys] at known
  | cons entry rest ih =>
    by_cases same : entry.1 = key
    · simp [set, keys, same]
    · have later : key ∈ keys rest := by
        simpa [keys, Ne.symm same] using known
      simpa [set, keys, same] using ih later

theorem keys_set_of_not_mem {key : κ} {value : α} {table : Table κ α} (fresh : key ∉ keys table) :
    keys (set key value table) = keys table ++ [key] := by
  induction table with
  | nil => simp [set, keys]
  | cons entry rest ih =>
    have differ : entry.1 ≠ key := fun same => fresh (by simp [keys, same])
    have later : key ∉ keys rest := fun member => fresh (by simp [keys] at member ⊢; simp [member])
    simpa [set, keys, differ] using ih later

end Table

end CHeader
