import CHeader.Text.Basic

/-!
# Directives

A directive starts with `#` on a line of its own, after spaces and tabs at most. It runs to the end
of its line, and over the next line whenever a backslash stands before the line break.
-/
namespace CHeader.Text

/-- What is left, from the line break that ends the directive on. -/
def afterDirective : Text → Text
  | [] => []
  | '\\' :: '\n' :: rest => afterDirective rest
  | c :: rest => if c = '\n' then c :: rest else afterDirective rest

theorem afterDirective_length (s : Text) : (afterDirective s).length ≤ s.length := by
  fun_induction afterDirective s <;> grind

/-- The text after the directive with which it begins, if it begins with one. -/
def directive? (s : Text) : Option Text :=
  match s.dropWhile isIndent with
  | '#' :: rest => some (afterDirective rest)
  | _ => none

theorem directive?_length {s rest : Text} (found : directive? s = some rest) :
    rest.length < s.length := by
  unfold directive? at found
  split at found
  next after opened =>
    cases found
    have indented := (List.dropWhile_suffix (l := s) isIndent).length_le
    have shorter := afterDirective_length after
    rw [opened, List.length_cons] at indented
    omega
  next => cases found

theorem getD_directive?_length (s : Text) : ((directive? s).getD s).length ≤ s.length := by
  cases found : directive? s with
  | none => simp
  | some after =>
    have shorter := directive?_length found
    simp only [Option.getD_some]
    omega

theorem length_of_dropWhile_eq_cons {p : Char → Bool} {s rest : Text} {c : Char}
    (left : s.dropWhile p = c :: rest) : rest.length < s.length := by
  have suffix := (List.dropWhile_suffix (l := s) p).length_le
  rw [left, List.length_cons] at suffix
  omega

/-- Remove the directives of a text that stands at the start of a line; their line breaks stay. -/
def stripDirectives (s : Text) : Text :=
  let body := (directive? s).getD s
  match left : body.dropWhile (· ≠ '\n') with
  | [] => body
  | lineBreak :: rest =>
    have : body.length ≤ s.length := getD_directive?_length s
    have := length_of_dropWhile_eq_cons left
    body.takeWhile (· ≠ '\n') ++ lineBreak :: stripDirectives rest
termination_by s.length
decreasing_by omega

end CHeader.Text
