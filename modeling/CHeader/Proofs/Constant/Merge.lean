import CHeader.Proofs.Constant

/-!
# Constants of two texts

A line break ends the line in front of it unless a backslash joins the next line to it. So the
definitions of two texts with a line break between them are those of the first text and then those of
the second one, and their table is that of the first text after the entries of the second one have been
entered: known names keep their place and take the new value, new names follow in their order.
-/
namespace CHeader.Constant

open Text

variable {s t : Text}

/-- The entries are the definitions with their values worked out. -/
def Reads : List (Text × Text) → ConstantTable → Prop :=
  List.Forall₂ fun definition entry => entry.1 = definition.1 ∧ parse definition.2 = .ok entry.2

/-- Every entry comes from a definition of its name. -/
theorem Reads.exists_definition {definitions : List (Text × Text)} {entries : ConstantTable}
    (reads : Reads definitions entries) {entry : Text × Constant} (member : entry ∈ entries) :
    ∃ value, (entry.1, value) ∈ definitions ∧ parse value = .ok entry.2 := by
  unfold Reads at reads
  induction reads with
  | nil => cases member
  | @cons definition first definitions entries same _ ih =>
    rcases List.mem_cons.mp member with rfl | later
    · refine ⟨definition.2, ?_, same.2⟩
      rw [same.1]
      exact List.mem_cons_self
    · obtain ⟨value, listed, parsed⟩ := ih later
      exact ⟨value, List.mem_cons_of_mem _ listed, parsed⟩

/-- The fold stops at the first value that cannot be worked out, before anything else is entered. -/
theorem foldlM_set_eq_ok_iff {definitions : List (Text × Text)} {table result : ConstantTable} :
    definitions.foldlM (fun table (name, value) => do
        return table.set name (← parse value)) table = Except.ok result ↔
      ∃ entries, Reads definitions entries ∧ result = table.update entries := by
  induction definitions generalizing table with
  | nil =>
    constructor
    · intro done
      cases done
      exact ⟨[], .nil, rfl⟩
    · rintro ⟨entries, reads, rfl⟩
      cases reads
      rfl
  | cons definition definitions ih =>
    obtain ⟨name, value⟩ := definition
    rw [List.foldlM_cons]
    dsimp only
    cases read : parse value with
    | error cause =>
      constructor
      · intro done
        cases done
      · rintro ⟨entries, reads, -⟩
        cases reads with
        | cons first later =>
          rw [read] at first
          cases first.2
    | ok constant =>
      change List.foldlM _ (table.set name constant) definitions = _ ↔ _
      rw [ih]
      constructor
      · rintro ⟨entries, reads, rfl⟩
        exact ⟨(name, constant) :: entries, .cons ⟨rfl, read⟩ reads, rfl⟩
      · rintro ⟨entries, reads, rfl⟩
        cases reads with
        | @cons _ entry _ entries first later =>
          obtain ⟨known, valued⟩ := entry
          obtain ⟨rfl, worked⟩ := first
          rw [read] at worked
          cases worked
          exact ⟨entries, later, rfl⟩

/-- A text has a table if every definition has a value, and it is made up of these values. -/
theorem extract_eq_ok_iff {text : Text} {table : ConstantTable} :
    extract text = .ok table ↔
      ∃ entries, Reads (definitions text) entries ∧ table = Table.ofList entries :=
  foldlM_set_eq_ok_iff

/-- Every entry of the table is defined in the text. -/
theorem exists_definition {text : Text} {table : ConstantTable}
    (read : extract text = .ok table) {entry : Text × Constant}
    (member : entry ∈ table) :
    ∃ value, (entry.1, value) ∈ definitions text ∧ parse value = .ok entry.2 := by
  obtain ⟨entries, reads, rfl⟩ := extract_eq_ok_iff.mp read
  exact reads.exists_definition (Table.mem_of_mem_ofList member)

/-- Two texts with a line break between them have the table of the first one, updated by the entries of
the second one. No backslash may join the line break to what stands behind it. -/
theorem extract_append_line (unjoined : ¬['\\'] <:+ s) (unreturned : ¬['\\', '\r'] <:+ s)
    {first second : ConstantTable} (read : extract s = .ok first) (readMore : extract t = .ok second) :
    extract (s ++ '\n' :: t) = .ok (first.update second) ∧
      (first.update second).keys =
        first.keys ++ second.keys.filter (· ∉ first.keys) ∧
      ∀ name, (first.update second).get? name = (second.get? name).or (first.get? name) := by
  obtain ⟨entries, reads, rfl⟩ := extract_eq_ok_iff.mp read
  obtain ⟨others, readsOthers, rfl⟩ := extract_eq_ok_iff.mp readMore
  have distinct := Table.nodup_keys_ofList entries
  have settled := Table.ofList_eq_self (Table.nodup_keys_ofList others)
  refine ⟨extract_eq_ok_iff.mpr ⟨entries ++ others, ?_, ?_⟩, ?_, fun name => ?_⟩
  · rw [definitions_append_line unjoined unreturned]
    exact List.rel_append reads readsOthers
  · -- a name that the second text defines twice is entered twice, which its table no longer shows
    rw [Table.update_ofList distinct, Table.ofList_eq_update, Table.ofList_eq_update,
      Table.update_append]
  · rw [Table.keys_update, settled, List.append_cancel_left_eq]
    exact List.filter_congr fun name _ => decide_eq_decide.mpr Iff.rfl
  · rw [Table.get?_update, settled]

/-- A definition over two lines, a line feed behind a carriage return, a guard, a new name, and a name
that is defined once more. -/
theorem extract_append_line_redefined :
    let s := "#define A (1 | \\\n 2)\n#define B 7\r".toList
    let t := "#define GUARD // no value\n#define C \"c\"\n#define A -1".toList
    ¬['\\'] <:+ s ∧ ¬['\\', '\r'] <:+ s ∧
      extract s = .ok [("A".toList, .expression "(1 |   2)".toList), ("B".toList, .integer 7)] ∧
      extract t = .ok [("C".toList, .string "c".toList), ("A".toList, .integer (-1))] ∧
      extract (s ++ '\n' :: t) = .ok [("A".toList, .integer (-1)), ("B".toList, .integer 7),
        ("C".toList, .string "c".toList)] := by
  intro s t
  have unjoined : ¬['\\'] <:+ s := by decide
  have unreturned : ¬['\\', '\r'] <:+ s := by decide
  have read : extract s =
      .ok [("A".toList, .expression "(1 |   2)".toList), ("B".toList, .integer 7)] := by
    change extract "#define A (1 | \\\n 2)\n#define B 7\r".toList = _
    decide +kernel
  have readMore : extract t =
      .ok [("C".toList, .string "c".toList), ("A".toList, .integer (-1))] := by
    change extract "#define GUARD // no value\n#define C \"c\"\n#define A -1".toList = _
    decide +kernel
  exact ⟨unjoined, unreturned, read, readMore,
    (extract_append_line unjoined unreturned read readMore).1⟩

end CHeader.Constant
