import CHeader.Proofs.Parameter.Shown

/-!
# What stands behind a colon

In a text with a colon, what stands in front of it is part of any type that is read: no name is followed
by it, and no arguments are. So the name that such a text is read with depends on the colon and what
stands behind it alone.
-/
namespace CHeader.Parameter

open Text

variable {lead : Text} {sign : Char}

/-! ## Signs that are part of a type -/

theorem functionPointer?_prepend (rest : Text) (unopened : '(' ∉ lead) (oneLine : '\n' ∉ lead)
    (solid : isSpace sign = false) (other : sign ≠ '(') :
    functionPointer? (lead ++ sign :: rest) =
      (functionPointer? (sign :: rest)).map fun (returns, tail) => (lead ++ returns, tail) := by
  induction lead with
  | nil => simp
  | cons c lead ih =>
    simp only [List.mem_cons, not_or] at unopened oneLine
    -- the sign keeps any parenthesis from the text in front of it
    have nothing : pointerTail? (lead ++ [sign] ++ rest) = none :=
      pointerTail?_lead (by simp [unopened.2, Ne.symm other]) ⟨sign, by simp, solid⟩ rest
    rw [List.append_assoc, List.singleton_append] at nothing
    rw [List.cons_append, functionPointer?, if_neg (Ne.symm oneLine.1), nothing,
      ih unopened.2 oneLine.2]
    simp [Option.map_map, Function.comp_def]

theorem declaration?_prepend (rest : Text) (unopened : '[' ∉ lead) (oneLine : '\n' ∉ lead)
    (solid : isSpace sign = false) (noWord : isWord sign = false) (other : sign ≠ '[') :
    declaration? (lead ++ sign :: rest) =
      (declaration? (sign :: rest)).map fun (type, tail) => (lead ++ type, tail) := by
  induction lead with
  | nil => simp
  | cons c lead ih =>
    simp only [List.mem_cons, not_or] at unopened oneLine
    have nothing : declarator? (lead ++ [sign] ++ rest) = none :=
      declarator?_eq_none (by simp [unopened.2, Ne.symm other])
        ⟨sign, mem_dropWhile (by simp) noWord, solid⟩ rest
    rw [List.append_assoc, List.singleton_append] at nothing
    rw [List.cons_append, declaration?, nothing, ite_self, ih unopened.2 oneLine.2]
    simp [Option.map_map, Function.comp_def, Ne.symm oneLine.1]

/-- What is read behind the text in front of a sign begins with that sign. -/
theorem exists_behind {rest type name sizes : Text} (unopened : '[' ∉ lead) (oneLine : '\n' ∉ lead)
    (solid : isSpace sign = false) (noWord : isWord sign = false) (other : sign ≠ '[')
    (found : declaration? (lead ++ sign :: rest) = some (type, name, sizes)) :
    ∃ behind declared, type = lead ++ behind ∧ behind <+: sign :: rest ∧
      dimensions? false declared = some sizes := by
  rw [declaration?_prepend rest unopened oneLine solid noWord other] at found
  obtain ⟨⟨behind, tail⟩, declared, pair⟩ := Option.map_eq_some_iff.mp found
  cases pair
  obtain ⟨after, split, declaration⟩ := exists_declared declared
  obtain ⟨_, dimensions, -, -, read⟩ := exists_name declaration.declarator
  exact ⟨behind, dimensions, rfl, ⟨after, split.symm⟩, read⟩

/-! ## Colons -/

/-- The text in front of a colon is the beginning of the type, if there is a name at all. -/
theorem parse_colon {width : Text} (starts : Starts lead) (unopened : '(' ∉ lead ∧ '[' ∉ lead)
    (oneLine : '\n' ∉ lead) (ends : Ends width) :
    (parse (lead ++ ':' :: width)).name = (parse (':' :: width)).name := by
  have whole : trim (lead ++ ':' :: width) = lead ++ ':' :: width :=
    trim_eq_self (starts.append _) ((ends.append [':']).append lead)
  have alone : trim (':' :: width) = ':' :: width :=
    trim_eq_self (starts_cons (by decide) width) (ends.append [':'])
  have pointer := functionPointer?_prepend width unopened.1 oneLine
    (show isSpace ':' = false by decide) (by decide)
  have declared := declaration?_prepend width unopened.2 oneLine
    (show isSpace ':' = false by decide) (by decide) (by decide)
  rw [parse, parse, whole, alone, pointer, declared]
  cases functionPointer? (':' :: width) with
  | some found => rfl
  | none =>
    cases found : declaration? (':' :: width) with
    | none => rfl
    | some declaration =>
      obtain ⟨type, name, sizes⟩ := declaration
      -- with a colon in it the type is no tag word, with or without the text in front
      obtain ⟨rest, split, ⟨front, separator, rfl, -⟩, -⟩ := exists_declared found
      have colon : ':' ∈ front ++ [separator] := by
        rcases List.cons_eq_append_iff.mp split with ⟨empty, -⟩ | ⟨more, start, -⟩
        · simp at empty
        · simp [start]
      have untagged {type : Text} (member : ':' ∈ type) : trim type ∉ tagWords := fun tag => by
        have signs : ∀ word ∈ tagWords, ':' ∉ word := by decide
        exact signs _ tag (mem_trim member (by decide))
      have before : ':' ∈ lead ++ (front ++ [separator]) := List.mem_append_right lead colon
      simp only [Option.map_none, Option.map_some, untagged colon, untagged before, or_false]
      split <;> rfl

end CHeader.Parameter
