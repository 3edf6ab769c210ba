import CHeader.Text.Comment
import Mathlib.Data.List.Basic

/-!
# Texts without comments

Stripping comments leaves a text alone that holds none, and it leaves none in any text. A block that
is opened and never closed is no comment.
-/
namespace CHeader.Text

/-- Somewhere a comment opens that runs to the end of its line, or one that is closed later. -/
def HasComment (s : Text) : Prop :=
  (∃ before after, s = before ++ '/' :: '/' :: after) ∨
    ∃ before inside after, s = before ++ '/' :: '*' :: (inside ++ '*' :: '/' :: after)

theorem HasComment.cons {s : Text} (has : HasComment s) (c : Char) : HasComment (c :: s) := by
  rcases has with ⟨before, after, rfl⟩ | ⟨before, inside, after, rfl⟩
  · exact Or.inl ⟨c :: before, after, rfl⟩
  · exact Or.inr ⟨c :: before, inside, after, rfl⟩

theorem HasComment.of_infix {s t : Text} (has : HasComment s) (inside : s <:+: t) :
    HasComment t := by
  obtain ⟨lead, tail, rfl⟩ := inside
  rcases has with ⟨before, after, rfl⟩ | ⟨before, body, after, rfl⟩
  · exact Or.inl ⟨lead ++ before, after ++ tail, by simp⟩
  · exact Or.inr ⟨lead ++ before, body, after ++ tail, by simp⟩

/-- Every comment opens with a slash. -/
theorem not_hasComment {s : Text} (absent : '/' ∉ s) : ¬HasComment s := by
  rintro (⟨before, after, rfl⟩ | ⟨before, inside, after, rfl⟩) <;> simp at absent

theorem splitThrough?_ends {mark s before after : Text}
    (found : splitThrough? mark s = some (before, after)) : ∃ inside, before = inside ++ mark := by
  induction s generalizing before after with
  | nil =>
    obtain ⟨rest, -, pair⟩ := Option.map_eq_some_iff.mp found
    cases pair
    exact ⟨[], rfl⟩
  | cons c rest ih =>
    rw [splitThrough?] at found
    split at found
    next =>
      cases found
      exact ⟨[], rfl⟩
    next =>
      obtain ⟨⟨inner, later⟩, split, pair⟩ := Option.map_eq_some_iff.mp found
      cases pair
      obtain ⟨inside, whole⟩ := ih split
      exact ⟨c :: inside, by rw [whole]; rfl⟩

theorem hasComment_of_comment? {s body after : Text} (found : comment? s = some (body, after)) :
    HasComment s := by
  unfold comment? at found
  split at found
  next rest => exact Or.inl ⟨[], rest, rfl⟩
  next rest =>
    -- what the block was read through ends in its closing mark
    obtain ⟨⟨inner, later⟩, closed, pair⟩ := Option.map_eq_some_iff.mp found
    obtain ⟨inside, ends⟩ := splitThrough?_ends closed
    have whole := splitThrough?_append closed
    refine Or.inr ⟨[], inside, later, ?_⟩
    rw [← whole, ends]
    simp
  next => cases found

theorem stripComments_eq_self {s : Text} (none : ¬HasComment s) : stripComments s = s := by
  rw [stripComments]
  -- the text is cut into single characters only
  fun_induction segments s with
  | case1 => rfl
  | case2 c rest body after found => exact absurd (hasComment_of_comment? found) none
  | case3 c rest _ ih =>
    rw [List.flatMap_cons, ih fun has => none (has.cons c)]
    rfl

/-! ## One segment after the other -/

theorem segments_of_comment? {s body after : Text} (found : comment? s = some (body, after)) :
    segments s = .comment body :: segments after := by
  cases s with
  | nil => cases found
  | cons c rest =>
    rw [segments]
    split
    next again =>
      rw [found] at again
      cases again
      rfl
    next none =>
      rw [found] at none
      cases none

theorem segments_cons {c : Char} {s : Text} (none : comment? (c :: s) = none) :
    segments (c :: s) = .code c :: segments s := by
  rw [segments]
  split
  next found =>
    rw [none] at found
    cases found
  next => rfl

theorem stripComments_of_comment? {s body after : Text} (found : comment? s = some (body, after)) :
    stripComments s = (Segment.comment body).visible ++ stripComments after := by
  rw [stripComments, segments_of_comment? found, List.flatMap_cons, stripComments]

theorem stripComments_cons {c : Char} {s : Text} (none : comment? (c :: s) = none) :
    stripComments (c :: s) = c :: stripComments s := by
  rw [stripComments, segments_cons none, List.flatMap_cons, stripComments]
  rfl

/-! ## Texts in which no comment opens -/

/-- No slash stands before a slash or a star. -/
def Unopened (s : Text) : Prop :=
  ∀ before c after, s = before ++ '/' :: c :: after → c ≠ '/' ∧ c ≠ '*'

theorem unopened_of_not_mem {s : Text} (absent : '/' ∉ s) : Unopened s := by
  rintro before c after rfl
  simp at absent

theorem Unopened.not_hasComment {s : Text} (unopened : Unopened s) : ¬HasComment s := by
  rintro (⟨before, after, whole⟩ | ⟨before, inside, after, whole⟩)
  · exact (unopened before _ _ whole).1 rfl
  · exact (unopened before _ _ whole).2 rfl

theorem unopened_cons_iff {c : Char} {s : Text} :
    Unopened (c :: s) ↔ (c = '/' → ∀ d ∈ s.head?, d ≠ '/' ∧ d ≠ '*') ∧ Unopened s := by
  constructor
  · intro unopened
    refine ⟨?_, fun before d after whole => unopened (c :: before) d after (congrArg _ whole)⟩
    rintro rfl d first
    obtain ⟨rest, rfl⟩ := List.head?_eq_some_iff.mp first
    exact unopened [] d rest rfl
  · rintro ⟨here, later⟩ before d after whole
    cases before with
    | nil =>
      cases whole
      exact here rfl d rfl
    | cons first before =>
      cases whole
      exact later before d after rfl

/-- A character that ends no opening mark keeps the texts on both sides apart. -/
theorem Unopened.append_cons {s t : Text} {d : Char} (first : Unopened s)
    (second : Unopened (d :: t)) (apart : d ≠ '/' ∧ d ≠ '*') : Unopened (s ++ d :: t) := by
  induction s with
  | nil => exact second
  | cons c s ih =>
    obtain ⟨here, later⟩ := unopened_cons_iff.mp first
    rw [List.cons_append, unopened_cons_iff]
    refine ⟨fun slash e next => ?_, ih later⟩
    cases s with
    | nil =>
      cases next
      exact apart
    | cons f s => exact here slash e next

theorem Unopened.prepend {s t : Text} (absent : '/' ∉ s) (unopened : Unopened t) :
    Unopened (s ++ t) := by
  induction s with
  | nil => exact unopened
  | cons c s ih =>
    simp only [List.mem_cons, not_or] at absent
    rw [List.cons_append, unopened_cons_iff]
    exact ⟨fun slash => absurd slash.symm absent.1, ih absent.2⟩

/-! ## Marks -/

theorem splitThrough?_eq_none {mark s : Text} (none : splitThrough? mark s = none) :
    ¬mark <:+: s := by
  induction s with
  | nil =>
    rintro inside
    rw [List.infix_nil.mp inside] at none
    cases none
  | cons c rest ih =>
    rw [splitThrough?] at none
    split at none
    next => cases none
    next absent =>
      rw [List.infix_cons_iff]
      rintro (⟨after, here⟩ | later)
      · rw [dropLeading?_eq_some.mpr here.symm] at absent
        cases absent
      · exact ih (Option.map_eq_none_iff.mp none) later

theorem hasComment_cons_iff {c : Char} {s : Text} :
    HasComment (c :: s) ↔ HasComment s ∨
      c = '/' ∧ ∃ d t, s = d :: t ∧ (d = '/' ∨ d = '*' ∧ ['*', '/'] <:+: t) := by
  constructor
  · rintro (⟨before, after, whole⟩ | ⟨before, inside, after, whole⟩)
    · cases before with
      | nil =>
        cases whole
        exact Or.inr ⟨rfl, _, _, rfl, Or.inl rfl⟩
      | cons first before =>
        cases whole
        exact Or.inl (Or.inl ⟨before, after, rfl⟩)
    · cases before with
      | nil =>
        cases whole
        exact Or.inr ⟨rfl, _, _, rfl, Or.inr ⟨rfl, inside, after, by simp⟩⟩
      | cons first before =>
        cases whole
        exact Or.inl (Or.inr ⟨before, inside, after, rfl⟩)
  · rintro (has | ⟨rfl, d, t, rfl, rfl | ⟨rfl, inside, after, rfl⟩⟩)
    · exact has.cons c
    · exact Or.inl ⟨[], t, rfl⟩
    · exact Or.inr ⟨[], inside, after, by simp⟩

/-! ## Parts that blank space stands for -/

/-- The second text is the first one after parts of it were dropped and blank space was put in. Where a
part is dropped, blank space follows, so that no two signs come together. -/
inductive Thinned : Text → Text → Prop
  | nil : Thinned [] []
  | keep {s t : Text} (c : Char) (rest : Thinned s t) : Thinned (c :: s) (c :: t)
  | drop {s t : Text} (c : Char) (apart : ∀ d ∈ t.head?, isSpace d = true) (rest : Thinned s t) :
      Thinned (c :: s) t
  | pad {s t : Text} {c : Char} (blank : isSpace c = true) (rest : Thinned s t) : Thinned s (c :: t)

namespace Thinned

variable {s t : Text}

theorem prepend (lead : Text) (rest : Thinned s t) : Thinned (lead ++ s) (lead ++ t) := by
  induction lead with
  | nil => exact rest
  | cons c lead ih => exact .keep c ih

theorem refl (s : Text) : Thinned s s := by
  have whole := prepend s .nil
  rwa [List.append_nil] at whole

theorem dropAll (lead : Text) (apart : ∀ d ∈ t.head?, isSpace d = true) (rest : Thinned s t) :
    Thinned (lead ++ s) t := by
  induction lead with
  | nil => exact rest
  | cons c lead ih => exact .drop c apart ih

theorem padAll {gap : Text} (blank : ∀ c ∈ gap, isSpace c = true) (rest : Thinned s t) :
    Thinned s (gap ++ t) := by
  induction gap with
  | nil => exact rest
  | cons c gap ih =>
    obtain ⟨here, others⟩ := List.forall_mem_cons.mp blank
    exact .pad here (ih others)

/-- A sign that is left at the front stood at the front. -/
theorem solid {c : Char} (thinned : Thinned s (c :: t)) (visible : isSpace c = false) :
    ∃ rest, s = c :: rest ∧ Thinned rest t := by
  cases thinned with
  | keep _ rest => exact ⟨_, rfl, rest⟩
  | drop _ apart =>
    rw [apart c rfl] at visible
    cases visible
  | pad blank =>
    rw [blank] at visible
    cases visible

/-- A block that is closed in what is left was closed before. -/
theorem closes (thinned : Thinned s t) (mark : ['*', '/'] <:+: t) : ['*', '/'] <:+: s := by
  induction thinned with
  | nil => exact mark
  | @keep s t c rest ih =>
    rcases List.infix_cons_iff.mp mark with here | later
    · obtain ⟨rfl, after, next⟩ := List.cons_prefix_cons.mp here
      obtain ⟨tail, rfl, -⟩ := (next ▸ rest).solid (by decide)
      exact ⟨[], tail, rfl⟩
    · exact List.infix_cons (ih later)
  | drop c apart rest ih => exact List.infix_cons (ih mark)
  | @pad s t c blank rest ih =>
    rcases List.infix_cons_iff.mp mark with here | later
    · rw [← (List.cons_prefix_cons.mp here).1] at blank
      cases blank
    · exact ih later

/-- A comment in what is left was a comment before. -/
theorem hasComment (thinned : Thinned s t) (has : HasComment t) : HasComment s := by
  induction thinned with
  | nil => exact has
  | @keep s t c rest ih =>
    rw [hasComment_cons_iff] at has ⊢
    rcases has with later | ⟨slash, d, tail, rfl, opens⟩
    · exact Or.inl (ih later)
    · -- the sign that opens the comment was next to the slash, and the block was closed
      have visible : isSpace d = false := by rcases opens with rfl | ⟨rfl, -⟩ <;> decide
      obtain ⟨after, rfl, onward⟩ := rest.solid visible
      exact Or.inr ⟨slash, d, after, rfl, opens.imp_right (And.imp_right onward.closes)⟩
  | drop c apart rest ih => exact (ih has).cons c
  | pad blank rest ih =>
    rcases hasComment_cons_iff.mp has with later | ⟨rfl, -⟩
    · exact ih later
    · cases blank

end Thinned

/-! ## What is left has no comments -/

theorem blank_of_mem_visible {body : Text} {c : Char}
    (member : c ∈ (Segment.comment body).visible) : isSpace c = true := by
  unfold Segment.visible at member
  dsimp only at member
  split at member
  · rw [List.mem_singleton.mp member]
    rfl
  · rw [List.eq_of_mem_replicate member]
    rfl

theorem visible_ne_nil (body : Text) : (Segment.comment body).visible ≠ [] := by
  unfold Segment.visible
  dsimp only
  split
  · exact List.cons_ne_nil _ _
  next breaks => simpa using breaks

/-- A space is put in, and a line break only for one that goes. -/
theorem mem_stripComments {s : Text} {c : Char} (member : c ∈ stripComments s) :
    c = ' ' ∨ c ∈ s := by
  rw [stripComments] at member
  fun_induction segments s with
  | case1 => cases member
  | case2 first rest body after found _ ih =>
    rw [← comment?_append found, List.mem_append]
    rcases List.mem_append.mp member with stands | later
    · unfold Segment.visible at stands
      dsimp only at stands
      split at stands
      · exact Or.inl (List.mem_singleton.mp stands)
      next breaks =>
        rw [List.eq_of_mem_replicate stands]
        exact Or.inr (Or.inl (List.count_pos_iff.mp (Nat.pos_of_ne_zero breaks)))
    · exact (ih later).imp_right Or.inr
  | case3 first rest found ih =>
    rcases List.mem_cons.mp member with rfl | later
    · exact Or.inr List.mem_cons_self
    · exact (ih later).imp_right (List.mem_cons_of_mem first)

theorem thinned_stripComments (s : Text) : Thinned s (stripComments s) := by
  rw [stripComments]
  fun_induction segments s with
  | case1 => exact .nil
  | case2 c rest body after found _ ih =>
    rw [← comment?_append found, List.flatMap_cons]
    refine .dropAll body (fun d first => ?_) (ih.padAll fun d => blank_of_mem_visible)
    rw [Option.mem_def, List.head?_append_of_ne_nil _ (visible_ne_nil body)] at first
    exact blank_of_mem_visible (List.mem_of_mem_head? first)
  | case3 c rest found ih => exact .keep c ih

theorem not_hasComment_stripComments (s : Text) : ¬HasComment (stripComments s) := by
  rw [stripComments]
  fun_induction segments s with
  | case1 => exact not_hasComment List.not_mem_nil
  | case2 c rest body after found _ ih =>
    -- no comment opens in what stands for one
    have blank : ∀ d ∈ (Segment.comment body).visible, isSpace d = true :=
      fun d => blank_of_mem_visible
    exact fun has => ih (((Thinned.refl _).padAll blank).hasComment has)
  | case3 c rest found ih =>
    change ¬HasComment (c :: stripComments rest)
    rw [hasComment_cons_iff]
    rintro (has | ⟨rfl, d, tail, next, opens⟩)
    · exact ih has
    · have visible : isSpace d = false := by rcases opens with rfl | ⟨rfl, -⟩ <;> decide
      obtain ⟨after, rfl, onward⟩ := (next ▸ thinned_stripComments rest).solid visible
      rcases opens with rfl | ⟨rfl, closes⟩
      · cases found
      · -- the block is closed before stripping as well
        have unclosed := splitThrough?_eq_none (Option.map_eq_none_iff.mp found)
        exact unclosed (onward.closes closes)

end CHeader.Text
