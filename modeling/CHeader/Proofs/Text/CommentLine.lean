import CHeader.Proofs.Text.Comment
import CHeader.Proofs.Text.Word
import Mathlib.Data.List.TakeWhile

/-!
# Comments within lines

`Cut` says where the comments of a text are, apart from how they are looked for: from left to right, a
character is code if no comment opens at it. A text has one cut, and `layout` says what stands in each
of its lines: code, comments that the line holds as a whole, and parts of longer ones. Stripping
comments does its work within the lines.
-/
namespace CHeader.Text

variable {s t body after : Text} {c : Char} {cut : List Segment}

/-! ## The comments of a text -/

/-- A comment, by the text behind it: one runs up to the end of its line, the other one up to the
nearest mark that closes it. -/
inductive IsComment : (body after : Text) → Prop
  | line {body after : Text} (inside : '\n' ∉ body) (ends : ∀ c ∈ after.head?, c = '\n') :
      IsComment ('/' :: '/' :: body) after
  | block {body after : Text} (nearest : ¬['*', '/'] <:+: body ++ ['*']) :
      IsComment ('/' :: '*' :: (body ++ ['*', '/'])) after

/-- A text from left to right: a comment wherever one opens, and code everywhere else. -/
inductive Cut : Text → List Segment → Prop
  | nil : Cut [] []
  | comment {body after : Text} {cut : List Segment} (opens : IsComment body after)
      (later : Cut after cut) : Cut (body ++ after) (.comment body :: cut)
  | code {c : Char} {rest : Text} {cut : List Segment}
      (plain : ∀ body after, IsComment body after → c :: rest ≠ body ++ after)
      (later : Cut rest cut) : Cut (c :: rest) (.code c :: cut)

theorem prefix_append_dropLast (lead mark after : Text) :
    lead ++ mark.dropLast <+: lead ++ mark ++ after := by
  rw [List.append_assoc, List.prefix_append_right_inj]
  exact (List.dropLast_prefix mark).trans (List.prefix_append mark after)

/-- No mark is completed before the one that a text is read through. -/
theorem splitThrough?_nearest {mark s inside after : Text} (filled : mark ≠ [])
    (found : splitThrough? mark s = some (inside ++ mark, after)) :
    ¬mark <:+: inside ++ mark.dropLast := by
  have shorter : ¬mark <:+: mark.dropLast := fun within => by
    have := within.length_le
    have := List.length_pos_iff.mpr filled
    rw [List.length_dropLast] at *
    omega
  induction s generalizing inside after with
  | nil =>
    obtain ⟨rest, -, pair⟩ := Option.map_eq_some_iff.mp found
    rw [Prod.mk.injEq, List.self_eq_append_left] at pair
    rwa [pair.1]
  | cons c rest ih =>
    have whole := splitThrough?_append found
    rw [splitThrough?] at found
    split at found
    next =>
      rw [Option.some.injEq, Prod.mk.injEq, List.self_eq_append_left] at found
      rwa [found.1]
    next absent =>
      obtain ⟨⟨inner, later⟩, split, pair⟩ := Option.map_eq_some_iff.mp found
      obtain ⟨front, rfl⟩ := splitThrough?_ends split
      rw [Prod.mk.injEq, ← List.cons_append, List.append_cancel_right_eq] at pair
      obtain ⟨rfl, rfl⟩ := pair
      rw [List.cons_append, List.infix_cons_iff, not_or]
      refine ⟨fun here => ?_, ih split⟩
      -- a mark that begins here would have been found
      obtain ⟨more, leads⟩ := here.trans (prefix_append_dropLast (c :: front) mark later)
      rw [whole] at leads
      rw [dropLeading?_eq_some.mpr leads.symm] at absent
      cases absent

theorem splitThrough?_of_nearest {mark inside : Text} (filled : mark ≠ [])
    (nearest : ¬mark <:+: inside ++ mark.dropLast) (after : Text) :
    splitThrough? mark (inside ++ mark ++ after) = some (inside ++ mark, after) := by
  induction inside with
  | nil =>
    obtain ⟨c, rest, rfl⟩ := List.exists_cons_of_ne_nil filled
    have leads : dropLeading? (c :: rest) (c :: (rest ++ after)) = some after :=
      dropLeading?_eq_some.mpr rfl
    simp only [List.nil_append, List.cons_append, splitThrough?, leads]
  | cons c inside ih =>
    rw [List.cons_append, List.infix_cons_iff, not_or] at nearest
    have absent : dropLeading? mark (c :: (inside ++ mark ++ after)) = none := by
      rw [← Option.not_isSome_iff_eq_none, Option.isSome_iff_exists]
      rintro ⟨more, leads⟩
      have here : mark <+: c :: inside ++ mark ++ after :=
        ⟨more, (dropLeading?_eq_some.mp leads).symm⟩
      -- it would be completed before the last character of the mark behind it
      refine nearest.1 (List.prefix_of_prefix_length_le here
        (prefix_append_dropLast (c :: inside) mark after) ?_)
      simp only [List.length_cons, List.length_append, List.length_dropLast]
      omega
    rw [List.cons_append, List.cons_append, splitThrough?, absent, ih nearest.2]
    rfl

/-- What is looked for at the front of a text is a comment, and every comment is found there. -/
theorem comment?_eq_some_iff :
    comment? s = some (body, after) ↔ s = body ++ after ∧ IsComment body after := by
  constructor
  · intro found
    refine ⟨(comment?_append found).symm, ?_⟩
    unfold comment? at found
    split at found
    next rest =>
      cases found
      refine .line (fun member => by simpa using List.mem_takeWhile_imp member) fun c first => ?_
      have stops := List.head?_dropWhile_not (· ≠ '\n') rest
      rw [Option.mem_def.mp first] at stops
      simpa using stops
    next rest =>
      obtain ⟨⟨inner, later⟩, closed, pair⟩ := Option.map_eq_some_iff.mp found
      cases pair
      obtain ⟨inside, rfl⟩ := splitThrough?_ends closed
      exact .block (splitThrough?_nearest (by simp) closed)
    next => cases found
  · rintro ⟨rfl, opens⟩
    cases opens with
    | line inside ends =>
      have run := takeWhile_append_stop (t := after) (ne_of_not_mem inside)
        fun c first => by simp [ends c first]
      simp only [List.cons_append, comment?, run]
    | block nearest =>
      have closed := splitThrough?_of_nearest (by simp) nearest after
      simp only [List.cons_append, comment?, closed, Option.map_some]

/-- A text is cut in one way, and that is how its comments are found. -/
theorem cut_iff : Cut s cut ↔ cut = segments s := by
  constructor
  · intro cuts
    induction cuts with
    | nil => rw [segments]
    | comment opens later ih =>
      rw [segments_of_comment? (comment?_eq_some_iff.mpr ⟨rfl, opens⟩), ih]
    | @code c rest cut plain later ih =>
      have none : comment? (c :: rest) = none := by
        rw [Option.eq_none_iff_forall_ne_some]
        rintro ⟨body, after⟩ found
        obtain ⟨whole, opens⟩ := comment?_eq_some_iff.mp found
        exact plain body after opens whole
      rw [segments_cons none, ih]
  · rintro rfl
    fun_induction segments s with
    | case1 => exact .nil
    | case2 c rest body after found _ ih =>
      obtain ⟨whole, opens⟩ := comment?_eq_some_iff.mp found
      rw [whole]
      exact .comment opens ih
    | case3 c rest found ih =>
      refine .code (fun body after opens whole => ?_) ih
      rw [comment?_eq_some_iff.mpr ⟨whole, opens⟩] at found
      cases found

/-! ## What stands in a line -/

/-- What stands in a line: a character of code, a comment that the line holds as a whole, or what the
line holds of a longer comment. -/
inductive Portion where
  | code (c : Char)
  | whole (comment : Text)
  | part (comment : Text)
  deriving DecidableEq, Repr

namespace Portion

def source : Portion → Text
  | code c => [c]
  | whole comment => comment
  | part comment => comment

/-- A space stands for a comment that a line holds as a whole, and nothing for a part of one. -/
def visible : Portion → Text
  | code c => [c]
  | whole _ => [' ']
  | part _ => []

end Portion

/-- The lines that a segment begins, goes through and ends in. -/
def Segment.portions : Segment → List (List Portion)
  | .code c => if c = '\n' then [[], []] else [[.code c]]
  | .comment body =>
    if '\n' ∈ body then (splitOn '\n' body).map fun part => [.part part] else [[.whole body]]

/-- Lines after lines: the last one of the first lines goes on in the first one of the others. -/
def joinLines {α : Type} : List (List α) → List (List α) → List (List α)
  | [], others => others
  | [line], [] => [line]
  | [line], first :: others => (line ++ first) :: others
  | line :: next :: lines, others => line :: joinLines (next :: lines) others

/-- The lines of a text that is cut into segments. -/
def layout : List Segment → List (List Portion)
  | [] => [[]]
  | segment :: cut => joinLines segment.portions (layout cut)

theorem splitOn_append_joinLines (separator : Char) (s t : Text) :
    splitOn separator (s ++ t) = joinLines (splitOn separator s) (splitOn separator t) := by
  induction s with
  | nil =>
    obtain ⟨piece, pieces, cut⟩ := List.exists_cons_of_ne_nil (splitOn_ne_nil separator t)
    rw [List.nil_append, cut]
    rfl
  | cons c s ih =>
    obtain ⟨first, others, cut⟩ := List.exists_cons_of_ne_nil (splitOn_ne_nil separator s)
    rw [cut] at ih
    by_cases same : c = separator
    · rw [same, List.cons_append, splitOn_cons_self, splitOn_cons_self, ih, cut]
      rfl
    · -- the character belongs to the first line, and that one may be the last as well
      obtain ⟨piece, pieces, second⟩ := List.exists_cons_of_ne_nil (splitOn_ne_nil separator t)
      rw [second] at ih ⊢
      rw [List.cons_append, splitOn, splitOn, if_neg same, if_neg same, ih, cut]
      cases others <;> rfl

theorem map_joinLines {α β : Type} (f : α → List β) (lines others : List (List α)) :
    (joinLines lines others).map (List.flatMap f) =
      joinLines (lines.map (List.flatMap f)) (others.map (List.flatMap f)) := by
  fun_induction joinLines lines others with
  | case1 others => rfl
  | case2 line => rfl
  | case3 line first others => simp [joinLines]
  | case4 line next lines others ih =>
    rw [List.map_cons, ih]
    rfl

/-- What is said of the lines of each segment is true of the lines of the text. -/
theorem splitOn_flatMap {text : Segment → Text} {shown : Portion → Text}
    (each : ∀ segment, splitOn '\n' (text segment) = segment.portions.map (List.flatMap shown))
    (cut : List Segment) :
    splitOn '\n' (cut.flatMap text) = (layout cut).map (List.flatMap shown) := by
  induction cut with
  | nil => rfl
  | cons segment cut ih =>
    rw [List.flatMap_cons, splitOn_append_joinLines, each, ih, layout, map_joinLines]

theorem splitOn_source (segment : Segment) :
    splitOn '\n' segment.source = segment.portions.map (List.flatMap Portion.source) := by
  cases segment with
  | code c =>
    rw [Segment.source, Segment.portions, splitOn]
    split <;> rfl
  | comment body =>
    rw [Segment.source, Segment.portions]
    split
    next => simp [Portion.source, Function.comp_def]
    next short => simp [Portion.source, splitOn_eq_singleton short]

theorem splitOn_visible (segment : Segment) :
    splitOn '\n' segment.visible = segment.portions.map (List.flatMap Portion.visible) := by
  cases segment with
  | code c =>
    rw [Segment.visible, Segment.portions, splitOn]
    split <;> rfl
  | comment body =>
    rw [Segment.visible, Segment.portions]
    by_cases long : '\n' ∈ body
    · -- nothing is left of the parts, and as many line breaks as there are between them
      have some_break : body.count '\n' ≠ 0 := (List.count_pos_iff.mpr long).ne'
      have empty := splitOn_replicate_append '\n' (body.count '\n') []
      rw [List.append_nil, splitOn, ← List.replicate_succ', ← length_splitOn,
        ← List.map_const'] at empty
      rw [if_neg some_break, if_pos long, empty, List.map_map]
      rfl
    · rw [if_pos (List.count_eq_zero_of_not_mem long), if_neg long]
      rfl

/-- Stripping comments keeps the lines of a text. Each of them is left with its code and with a space
for every comment that it holds as a whole. -/
theorem stripComments_layout (s : Text) :
    (stripComments s).count '\n' = s.count '\n' ∧
      ∃ cut, (∀ other, Cut s other ↔ other = cut) ∧
        splitOn '\n' s = (layout cut).map (List.flatMap Portion.source) ∧
        splitOn '\n' (stripComments s) = (layout cut).map (List.flatMap Portion.visible) := by
  have before : splitOn '\n' s = (layout (segments s)).map (List.flatMap Portion.source) := by
    rw [← splitOn_flatMap splitOn_source, segments_source]
  have left : splitOn '\n' (stripComments s) =
      (layout (segments s)).map (List.flatMap Portion.visible) :=
    splitOn_flatMap splitOn_visible (segments s)
  refine ⟨?_, segments s, fun other => cut_iff, before, left⟩
  have lines := congrArg List.length left
  rw [List.length_map, ← List.length_map (f := List.flatMap Portion.source), ← before,
    length_splitOn, length_splitOn] at lines
  exact Nat.add_right_cancel lines

/-- A comment within a line, one over two lines, and one up to the end of its line. -/
example : layout (segments "a/*b*/c/*d\n//e*/f//g*/".toList) =
    [[.code 'a', .whole "/*b*/".toList, .code 'c', .part "/*d".toList],
      [.part "//e*/".toList, .code 'f', .whole "//g*/".toList]] := by cbv

end CHeader.Text
