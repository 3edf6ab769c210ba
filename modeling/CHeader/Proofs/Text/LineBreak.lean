import CHeader.Proofs.Text.Comment
import CHeader.Proofs.Text.Kept
import Mathlib.Data.List.Forall2

/-!
# Blank space before line breaks

Two texts are respaced if they differ only in the blank space `x` and `y` that stands before some of
their line breaks. Stripping comments leaves them so, since a comment is opened and closed by signs,
and what stands for it depends on its line breaks alone. The lines of such texts say the same, except
that a backslash no longer ends a line if blank space stands after it.
-/
namespace CHeader.Text

/-- Blank space within a line. -/
def IsPadding (x : Text) : Prop := ∀ c ∈ x, isSpace c = true ∧ c ≠ '\n'

inductive Respaced (x y : Text) : Text → Text → Prop
  | nil : Respaced x y [] []
  | keep {s t : Text} (c : Char) (rest : Respaced x y s t) : Respaced x y (c :: s) (c :: t)
  | pad {s t : Text} (rest : Respaced x y s t) : Respaced x y (x ++ '\n' :: s) (y ++ '\n' :: t)

variable {x y s t body after : Text} {c : Char}

namespace IsPadding

theorem not_mem (padding : IsPadding x) (solid : isSpace c = false) : c ∉ x := by
  intro member
  rw [(padding c member).1] at solid
  cases solid

theorem lineBreak_not_mem (padding : IsPadding x) : '\n' ∉ x := fun member => (padding _ member).2 rfl

theorem blank (padding : IsPadding x) : ∀ c ∈ x, isSpace c = true := fun c member =>
  (padding c member).1

/-- A sign is neither in the padding nor a line break. -/
theorem not_mem_append (padding : IsPadding x) (solid : isSpace c = false) : c ∉ x ++ ['\n'] := by
  simp only [List.mem_append, List.mem_singleton, not_or]
  refine ⟨padding.not_mem solid, ?_⟩
  rintro rfl
  cases solid

end IsPadding

/-- A text with padding before each of its line breaks, in two ways. -/
theorem respaced_replaceChar (x y s : Text) :
    Respaced x y (replaceChar '\n' (x ++ ['\n']) s) (replaceChar '\n' (y ++ ['\n']) s) := by
  induction s with
  | nil => exact .nil
  | cons c s ih =>
    rw [replaceChar, replaceChar, List.flatMap_cons, List.flatMap_cons]
    split
    next => simpa [replaceChar] using Respaced.pad ih
    next => exact .keep c ih

theorem replaceChar_lineBreak (s : Text) : replaceChar '\n' ['\n'] s = s := by
  induction s with
  | nil => rfl
  | cons c s ih =>
    rw [replaceChar] at ih ⊢
    rw [List.flatMap_cons, ih]
    split
    next same => rw [same]; rfl
    next => rfl

/-! ## Comments -/

theorem stripComments_append (absent : '/' ∉ s) (t : Text) :
    stripComments (s ++ t) = s ++ stripComments t := by
  induction s with
  | nil => rfl
  | cons c s ih =>
    simp only [List.mem_cons, not_or] at absent
    have none : comment? (c :: (s ++ t)) = none := by
      unfold comment?
      split <;> simp_all
    rw [List.cons_append, stripComments_cons none, ih absent.2]
    rfl

theorem splitThrough?_append_of_not_mem (absent : '*' ∉ s) (t : Text) :
    splitThrough? ['*', '/'] (s ++ t) =
      (splitThrough? ['*', '/'] t).map fun (body, after) => (s ++ body, after) := by
  induction s with
  | nil => simp
  | cons c s ih =>
    simp only [List.mem_cons, not_or] at absent
    rw [List.cons_append, splitThrough?, dropLeading?, if_neg absent.1, ih absent.2, Option.map_map]
    rfl

theorem visible_lineComment (s : Text) :
    (Segment.comment ('/' :: '/' :: s.takeWhile (· ≠ '\n'))).visible = [' '] := by
  have none : ('/' :: '/' :: s.takeWhile (· ≠ '\n')).count '\n' = 0 := by
    refine List.count_eq_zero_of_not_mem fun member => ?_
    simp only [List.mem_cons, Char.reduceEq, false_or] at member
    simpa using List.mem_takeWhile_imp member
  rw [Segment.visible, if_pos none]

namespace Respaced

theorem symm (respaced : Respaced x y s t) : Respaced y x t s := by
  induction respaced with
  | nil => exact .nil
  | keep c _ ih => exact .keep c ih
  | pad _ ih => exact .pad ih

/-- A sign stands in both texts. -/
theorem cons (respaced : Respaced x y (c :: s) t) (padding : IsPadding x)
    (solid : isSpace c = false) : ∃ rest, t = c :: rest ∧ Respaced x y s rest := by
  generalize whole : c :: s = text at respaced
  cases respaced with
  | nil => cases whole
  | keep d rest =>
    cases whole
    exact ⟨_, rfl, rest⟩
  | pad rest =>
    have member : c ∈ x ++ ['\n'] := by
      cases x with
      | nil =>
        cases whole
        simp
      | cons d x =>
        cases whole
        simp
    exact absurd member (padding.not_mem_append solid)

theorem dropWhile_ne (respaced : Respaced x y s t) (left : IsPadding x) (right : IsPadding y) :
    Respaced x y (s.dropWhile (· ≠ '\n')) (t.dropWhile (· ≠ '\n')) := by
  induction respaced with
  | nil => exact .nil
  | keep c rest ih =>
    by_cases ends : c = '\n'
    · subst ends
      exact .keep _ rest
    · simpa [ends] using ih
  | pad rest ih =>
    rw [List.dropWhile_append_of_pos (ne_of_not_mem left.lineBreak_not_mem),
      List.dropWhile_append_of_pos (ne_of_not_mem right.lineBreak_not_mem)]
    exact .keep _ rest

/-- Where a block is closed in one of the texts, it is closed in the other, after as many line
breaks. -/
theorem closes (respaced : Respaced x y s t) (left : IsPadding x) (right : IsPadding y)
    (found : splitThrough? ['*', '/'] s = some (body, after)) :
    ∃ otherBody otherAfter, splitThrough? ['*', '/'] t = some (otherBody, otherAfter) ∧
      Respaced x y after otherAfter ∧ body.count '\n' = otherBody.count '\n' := by
  induction respaced generalizing body with
  | nil => simp [splitThrough?, dropLeading?] at found
  | @keep s t c rest ih =>
    rw [splitThrough?] at found ⊢
    cases marked : dropLeading? ['*', '/'] (c :: s) with
    | some later =>
      rw [marked] at found
      cases found
      have begins := dropLeading?_eq_some.mp marked
      rw [List.cons_append, List.cons.injEq] at begins
      obtain ⟨rfl, rfl⟩ := begins
      obtain ⟨otherAfter, rfl, respaced⟩ := rest.cons left rfl
      exact ⟨_, otherAfter, rfl, respaced, rfl⟩
    | none =>
      have unmarked : dropLeading? ['*', '/'] (c :: t) = none := by
        rw [← Option.not_isSome_iff_eq_none, Option.isSome_iff_exists]
        rintro ⟨later, begins⟩
        rw [dropLeading?_eq_some, List.cons_append, List.cons.injEq] at begins
        obtain ⟨rfl, rfl⟩ := begins
        obtain ⟨_, rfl, -⟩ := rest.symm.cons right rfl
        simp [dropLeading?] at marked
      rw [marked] at found
      rw [unmarked]
      obtain ⟨⟨inner, later⟩, closed, pair⟩ := Option.map_eq_some_iff.mp found
      cases pair
      obtain ⟨otherInner, otherAfter, otherClosed, respaced, same⟩ := ih closed
      refine ⟨c :: otherInner, otherAfter, ?_, respaced, ?_⟩
      · simp [otherClosed]
      · simp [List.count_cons, same]
  | @pad s t rest ih =>
    rw [List.append_cons, splitThrough?_append_of_not_mem (left.not_mem_append rfl)] at found
    obtain ⟨⟨inner, later⟩, closed, pair⟩ := Option.map_eq_some_iff.mp found
    cases pair
    obtain ⟨otherInner, otherAfter, otherClosed, respaced, same⟩ := ih closed
    refine ⟨(y ++ ['\n']) ++ otherInner, otherAfter, ?_, respaced, ?_⟩
    · rw [List.append_cons, splitThrough?_append_of_not_mem (right.not_mem_append rfl), otherClosed]
      rfl
    · simp [List.count_append, same, List.count_eq_zero_of_not_mem left.lineBreak_not_mem,
        List.count_eq_zero_of_not_mem right.lineBreak_not_mem]

theorem comment? (respaced : Respaced x y s t) (left : IsPadding x) (right : IsPadding y)
    (found : Text.comment? s = some (body, after)) :
    ∃ otherBody otherAfter, Text.comment? t = some (otherBody, otherAfter) ∧
      Respaced x y after otherAfter ∧
      (Segment.comment body).visible = (Segment.comment otherBody).visible := by
  unfold Text.comment? at found
  split at found
  next rest =>
    -- up to the end of the line
    cases found
    obtain ⟨_, rfl, one⟩ := respaced.cons left rfl
    obtain ⟨_, rfl, two⟩ := one.cons left rfl
    exact ⟨_, _, rfl, two.dropWhile_ne left right,
      (visible_lineComment _).trans (visible_lineComment _).symm⟩
  next rest =>
    obtain ⟨⟨inner, later⟩, closed, pair⟩ := Option.map_eq_some_iff.mp found
    cases pair
    obtain ⟨_, rfl, one⟩ := respaced.cons left rfl
    obtain ⟨_, rfl, two⟩ := one.cons left rfl
    obtain ⟨otherInner, otherAfter, otherClosed, onward, same⟩ := two.closes left right closed
    refine ⟨'/' :: '*' :: otherInner, otherAfter, ?_, onward, ?_⟩
    · simp [Text.comment?, otherClosed]
    · simp [Segment.visible, same]
  next => cases found

theorem comment?_eq_none (respaced : Respaced x y s t) (left : IsPadding x) (right : IsPadding y)
    (code : Text.comment? s = none) : Text.comment? t = none := by
  rw [← Option.not_isSome_iff_eq_none, Option.isSome_iff_exists]
  rintro ⟨⟨body, after⟩, found⟩
  obtain ⟨_, _, again, -⟩ := respaced.symm.comment? right left found
  rw [code] at again
  cases again

theorem append (respaced : Respaced x y s t) (lead : Text) :
    Respaced x y (lead ++ s) (lead ++ t) := by
  induction lead with
  | nil => exact respaced
  | cons c lead ih => exact .keep c ih

theorem stripComments (respaced : Respaced x y s t) (left : IsPadding x) (right : IsPadding y) :
    Respaced x y (Text.stripComments s) (Text.stripComments t) := by
  -- a comment is taken off as a whole, and so is padding
  induction size : s.length using Nat.strongRecOn generalizing s t with
  | ind size ih =>
    subst size
    cases comments : Text.comment? s with
    | some found =>
      obtain ⟨body, after⟩ := found
      obtain ⟨otherBody, otherAfter, again, onward, same⟩ := respaced.comment? left right comments
      rw [stripComments_of_comment? comments, stripComments_of_comment? again, same]
      exact (ih _ (comment?_length comments) onward rfl).append _
    | none =>
      have code := respaced.comment?_eq_none left right comments
      cases respaced with
      | nil =>
        rw [Text.stripComments, segments]
        exact .nil
      | @keep s t c rest =>
        rw [stripComments_cons comments, stripComments_cons code]
        exact .keep c (ih _ (by simp) rest rfl)
      | @pad s t rest =>
        rw [List.append_cons x, List.append_cons y, stripComments_append (left.not_mem_append rfl),
          stripComments_append (right.not_mem_append rfl), ← List.append_cons, ← List.append_cons]
        exact .pad (ih _ (by simp; omega) rest rfl)

/-! ## Lines -/

/-- The lines of respaced texts are the same up to padding at their ends. -/
theorem lines (respaced : Respaced x y s t) (left : IsPadding x) (right : IsPadding y) :
    List.Forall₂ (fun line other => line = other ∨ ∃ front, line = front ++ x ∧ other = front ++ y)
      (splitOn '\n' s) (splitOn '\n' t) := by
  induction respaced with
  | nil => simp [splitOn]
  | @keep s t c rest ih =>
    by_cases ends : c = '\n'
    · subst ends
      rw [splitOn_cons_self, splitOn_cons_self]
      exact .cons (Or.inl rfl) ih
    · -- the character belongs to the first line of both
      obtain ⟨line, more, cut⟩ := List.exists_cons_of_ne_nil (splitOn_ne_nil '\n' s)
      obtain ⟨other, others, otherCut⟩ := List.exists_cons_of_ne_nil (splitOn_ne_nil '\n' t)
      rw [cut, otherCut, List.forall₂_cons] at ih
      rw [splitOn, splitOn, if_neg ends, if_neg ends, cut, otherCut]
      refine .cons ?_ ih.2
      rcases ih.1 with rfl | ⟨front, rfl, rfl⟩
      · exact Or.inl rfl
      · exact Or.inr ⟨c :: front, rfl, rfl⟩
  | @pad s t rest ih =>
    rw [splitOn_append_cons left.lineBreak_not_mem, splitOn_append_cons right.lineBreak_not_mem]
    exact .cons (Or.inr ⟨[], rfl, rfl⟩) ih

end Respaced

/-! ## Flat text -/

theorem sameLine_append (padding : IsPadding x) (line : Text) : SameLine (line ++ x) line := by
  refine ⟨words_append_of_blank line padding.blank, ?_⟩
  cases opens : directive? line with
  | none =>
    have apart : (x.dropWhile isIndent).head? ≠ some '#' := fun first =>
      padding.not_mem (c := '#') rfl
        ((List.dropWhile_suffix isIndent).subset (List.mem_of_mem_head? first))
    rw [directive?_append_of_eq_none opens apart]
  | some after =>
    have begins : (directive? line).isSome := by rw [opens]; rfl
    obtain ⟨_, -, -, goesOn⟩ := directive?_append_of_isSome begins x
    rw [goesOn]
    rfl

theorem continues_append (padding : IsPadding x) (line : Text) (joins : continues (line ++ x) = true) :
    x = [] := by
  by_contra filled
  have last : x.getLast? = some '\\' := by
    rw [continues, beq_iff_eq, List.getLast?_append_of_ne_nil _ filled] at joins
    exact joins
  exact padding.not_mem rfl (List.mem_of_getLast? last)

/-- It does not matter which blank space stands before the line breaks, if there is some. -/
theorem flatten_padded (left : IsPadding x) (right : IsPadding y) (filled : x ≠ [])
    (otherFilled : y ≠ []) (s : Text) :
    flatten (replaceChar '\n' (x ++ ['\n']) s) = flatten (replaceChar '\n' (y ++ ['\n']) s) := by
  have alike := ((respaced_replaceChar x y s).stripComments left right).lines left right
  rw [flatten_eq, flatten_eq, words_keptLines_congr (alike.imp fun line other same => ?_)]
  rcases same with rfl | ⟨front, rfl, rfl⟩
  · exact ⟨⟨rfl, rfl⟩, rfl⟩
  · have one := sameLine_append left front
    have two := sameLine_append right front
    refine ⟨⟨one.words.trans two.words.symm, one.directive.trans two.directive.symm⟩, ?_⟩
    rw [Bool.eq_iff_iff]
    exact ⟨fun joins => absurd (continues_append left front joins) filled,
      fun joins => absurd (continues_append right front joins) otherFilled⟩

/-- Where no directive goes on in a second line, blank space before line breaks does not matter. -/
theorem flatten_padded_of_unjoined (padding : IsPadding y) {s : Text}
    (unjoined : Unjoined (splitOn '\n' (stripComments s))) :
    flatten (replaceChar '\n' (y ++ ['\n']) s) = flatten s := by
  have nothing : IsPadding [] := fun c member => absurd member List.not_mem_nil
  have respaced := respaced_replaceChar [] y s
  rw [List.nil_append, replaceChar_lineBreak] at respaced
  have alike := (respaced.stripComments nothing padding).lines nothing padding
  rw [flatten_eq, flatten_eq,
    words_keptLines_of_unjoined (alike.imp fun line other same => ?_) unjoined]
  rcases same with rfl | ⟨front, rfl, rfl⟩
  · exact ⟨⟨rfl, rfl⟩, id⟩
  · have two := sameLine_append padding front
    rw [List.append_nil]
    refine ⟨⟨two.words.symm, two.directive.symm⟩, fun joins => ?_⟩
    rwa [continues_append padding front joins, List.append_nil] at joins

end CHeader.Text
