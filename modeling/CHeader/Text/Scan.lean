import CHeader.Text.Comment

/-!
# Scanning steps

Each step takes something off the front of a text and returns what follows; a step that takes
something leaves a shorter text.
-/
namespace CHeader.Text

/-- The longest word at the start. -/
def word? (s : Text) : Option (Text × Text) :=
  if s.takeWhile isWord = [] then none else some (s.takeWhile isWord, s.dropWhile isWord)

theorem word?_append {s word rest : Text} (found : word? s = some (word, rest)) :
    word ++ rest = s ∧ word ≠ [] := by
  unfold word? at found
  split at found
  · cases found
  next nonempty =>
    cases found
    exact ⟨List.takeWhile_append_dropWhile, nonempty⟩

theorem word?_length {s word rest : Text} (found : word? s = some (word, rest)) :
    rest.length < s.length := by
  obtain ⟨whole, nonempty⟩ := word?_append found
  have positive := List.length_pos_iff.mpr nonempty
  have sum := congrArg List.length whole
  rw [List.length_append] at sum
  omega

/-- At least one blank character, and all that follow. -/
def blank? : Text → Option Text
  | [] => none
  | c :: rest => if isSpace c then some (trimStart rest) else none

theorem trimStart_length (s : Text) : (trimStart s).length ≤ s.length :=
  (List.dropWhile_suffix isSpace).length_le

theorem blank?_length {s rest : Text} (found : blank? s = some rest) :
    rest.length < s.length := by
  cases s with
  | nil => cases found
  | cons c cs =>
    simp only [blank?, Option.ite_none_right_eq_some, Option.some.injEq] at found
    have shorter := trimStart_length cs
    rw [found.2] at shorter
    simp only [List.length_cons]
    omega

theorem dropLeading?_length {leading s rest : Text} (found : dropLeading? leading s = some rest) :
    rest.length + leading.length = s.length := by
  rw [dropLeading?_eq_some.mp found, List.length_append]
  omega

/-- The stars of a pointer type, with the blank space before and between them. -/
def stars : Text → Text × Text
  | [] => ([], [])
  | c :: rest =>
    if c = '*' then ('*' :: (stars rest).1, (stars rest).2)
    else if isSpace c && !(stars rest).1.isEmpty then (c :: (stars rest).1, (stars rest).2)
    else ([], c :: rest)

/-- The text before a closing mark at the very end. -/
def dropLast? (last : Char) (s : Text) : Option Text :=
  match s.reverse with
  | c :: before => if c = last then some before.reverse else none
  | [] => none

end CHeader.Text
