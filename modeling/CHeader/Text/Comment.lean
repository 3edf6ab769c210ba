import CHeader.Text.Basic

/-!
# Comments

A text is cut into code characters and whole comments, from left to right: a comment is `//` up to
the end of its line, or `/*` up to the nearest `*/` that follows, whichever opens first. An opened
block that is never closed is code. Removing a comment keeps the line breaks it holds, so that no
code changes its line.
-/
namespace CHeader.Text

inductive Segment where
  | code (c : Char)
  | comment (body : Text)
  deriving DecidableEq, Repr

def Segment.source : Segment → Text
  | .code c => [c]
  | .comment body => body

/-- What stands for a segment once comments are gone. -/
def Segment.visible : Segment → Text
  | .code c => [c]
  | .comment body =>
    if body.count '\n' = 0 then [' '] else List.replicate (body.count '\n') '\n'

/-- The comment that a text begins with, and the text after it. -/
def comment? : Text → Option (Text × Text)
  | '/' :: '/' :: rest =>
    some ('/' :: '/' :: rest.takeWhile (· ≠ '\n'), rest.dropWhile (· ≠ '\n'))
  | '/' :: '*' :: rest =>
    (splitThrough? ['*', '/'] rest).map fun (body, after) => ('/' :: '*' :: body, after)
  | _ => none

theorem dropLeading?_eq_some {leading s rest : Text} :
    dropLeading? leading s = some rest ↔ s = leading ++ rest := by
  induction leading generalizing s with
  | nil => simp [dropLeading?, eq_comm]
  | cons p ps ih =>
    cases s with
    | nil => simp [dropLeading?]
    | cons c cs =>
      by_cases same : p = c
      · simp [dropLeading?, same, ih]
      · simp [dropLeading?, same, Ne.symm same]

theorem splitThrough?_append {mark s before after : Text}
    (found : splitThrough? mark s = some (before, after)) : before ++ after = s := by
  induction s generalizing before after with
  | nil =>
    simp only [splitThrough?, Option.map_eq_some_iff] at found
    obtain ⟨rest, leads, pair⟩ := found
    cases pair
    exact (dropLeading?_eq_some.mp leads).symm
  | cons c cs ih =>
    rw [splitThrough?] at found
    split at found
    next rest leads =>
      cases found
      exact (dropLeading?_eq_some.mp leads).symm
    next =>
      obtain ⟨⟨inner, rest⟩, later, pair⟩ := Option.map_eq_some_iff.mp found
      cases pair
      simp [ih later]

/-- A comment and what follows it make up the text. -/
theorem comment?_append {s body after : Text} (found : comment? s = some (body, after)) :
    body ++ after = s := by
  unfold comment? at found
  split at found
  · cases found
    simp [List.takeWhile_append_dropWhile]
  · obtain ⟨⟨inner, rest⟩, closed, pair⟩ := Option.map_eq_some_iff.mp found
    cases pair
    simp [splitThrough?_append closed]
  · cases found

theorem comment?_length {s body after : Text} (found : comment? s = some (body, after)) :
    after.length < s.length := by
  have whole := congrArg List.length (comment?_append found)
  have opened : 0 < body.length := by
    unfold comment? at found
    split at found
    · cases found
      simp
    · obtain ⟨⟨inner, rest⟩, _, pair⟩ := Option.map_eq_some_iff.mp found
      cases pair
      simp
    · cases found
  rw [List.length_append] at whole
  omega

def segments (s : Text) : List Segment :=
  match s with
  | [] => []
  | c :: rest =>
    match found : comment? (c :: rest) with
    | some (body, after) =>
      have := comment?_length found
      .comment body :: segments after
    | none => .code c :: segments rest
termination_by s.length
decreasing_by
  · assumption
  · exact Nat.lt_succ_self _

/-- Nothing is lost in cutting a text into segments. -/
theorem segments_source (s : Text) : (segments s).flatMap Segment.source = s := by
  fun_induction segments s with
  | case1 => rfl
  | case2 c rest body after found _ ih =>
    simp [Segment.source, ih, comment?_append found]
  | case3 c rest found ih => simp [Segment.source, ih]

def stripComments (s : Text) : Text := (segments s).flatMap Segment.visible

end CHeader.Text
