import CHeader.Parameter
import CHeader.Proofs.Text.Word
import Mathlib.Data.List.Infix

/-!
# Pieces at depth zero

Splitting a comma-separated list undoes joining its pieces, as long as each piece closes the
parentheses that it opens and holds no comma outside them.
-/
namespace CHeader.Parameter

open Text

variable {s t : Text}

/-- How far a text changes the nesting depth. -/
def depth : Text → Int
  | [] => 0
  | c :: rest => nesting c + depth rest

@[simp] theorem depth_nil : depth [] = 0 := rfl

@[simp] theorem depth_cons (c : Char) (s : Text) : depth (c :: s) = nesting c + depth s := rfl

@[simp] theorem depth_append (s t : Text) : depth (s ++ t) = depth s + depth t := by
  induction s with
  | nil => simp
  | cons c s ih => rw [List.cons_append, depth_cons, depth_cons, ih, Int.add_assoc]

theorem depth_eq_zero (opens : '(' ∉ s) (closes : ')' ∉ s) : depth s = 0 := by
  induction s with
  | nil => rfl
  | cons c rest ih =>
    simp only [List.mem_cons, not_or] at opens closes
    simp [nesting, Ne.symm opens.1, Ne.symm closes.1, ih opens.2 closes.2]

theorem depth_word (word : Word) : depth word.text = 0 :=
  depth_eq_zero (word.not_mem (by decide)) (word.not_mem (by decide))

/-- Every parenthesis that is opened is closed after it. -/
structure Balanced (s : Text) : Prop where
  closed : depth s = 0
  opened : ∀ before ∈ s.inits, 0 ≤ depth before

/-- From the given depth on no comma stands at depth zero. -/
def Uncut (start : Int) (s : Text) : Prop :=
  ∀ before after, s = before ++ ',' :: after → start + depth before ≠ 0

theorem uncut_of_not_mem {start : Int} (absent : ',' ∉ s) : Uncut start s := by
  rintro before after rfl
  simp at absent

theorem Balanced.uncut (balanced : Balanced s) {start : Int} (inside : 0 < start) :
    Uncut start s := by
  rintro before after rfl
  -- the depth inside never falls below the one at the start
  have := balanced.opened before ((List.mem_inits _ _).mpr (List.prefix_append _ _))
  omega

theorem Uncut.append {start : Int} (first : Uncut start s) (second : Uncut (start + depth s) t) :
    Uncut start (s ++ t) := by
  intro before after same
  -- the comma stands in the second text or in the first
  rcases List.append_eq_append_iff.mp same with ⟨more, rfl, rest⟩ | ⟨more, whole, rest⟩
  · have := second more after rest
    rw [depth_append]
    omega
  · cases more with
    | nil =>
      have := second [] after (by simpa using rest.symm)
      rw [List.append_nil] at whole
      subst whole
      simpa using this
    | cons c more =>
      cases rest
      exact first before more whole

/-! ## Splitting -/

theorem segments_ne_nil (start : Int) (s : Text) : segments start s ≠ [] := by
  cases s with
  | nil => simp [segments]
  | cons c rest =>
    rw [segments]
    split
    · simp
    · split <;> simp

/-- Nothing but the commas between them is lost in cutting a text into pieces. -/
theorem joinWith_segments (start : Int) (s : Text) : joinWith [','] (segments start s) = s := by
  induction s generalizing start with
  | nil => rfl
  | cons c rest ih =>
    rw [segments]
    split
    next comma =>
      rw [joinWith_cons_of_ne_nil _ _ (segments_ne_nil start rest), ih, comma.1]
      rfl
    next =>
      split
      next segment others cut =>
        have whole := ih (start + nesting c)
        rw [cut] at whole
        rw [← whole]
        exact (append_joinWith_cons [','] [c] segment others).symm
      next cut => exact absurd cut (segments_ne_nil _ rest)

theorem eq_of_segments {start : Int} {piece : Text} (only : segments start s = [piece]) :
    piece = s := by
  have whole := joinWith_segments start s
  rwa [only, joinWith] at whole

theorem segments_append {start : Int} {segment : Text} {others : List Text} (uncut : Uncut start s)
    (rest : segments (start + depth s) t = segment :: others) :
    segments start (s ++ t) = (s ++ segment) :: others := by
  induction s generalizing start with
  | nil => simpa using rest
  | cons c s ih =>
    -- only a comma at depth zero would end the segment
    have kept : ¬(c = ',' ∧ start = 0) := by
      rintro ⟨rfl, rfl⟩
      exact uncut [] s rfl (by simp)
    have later : Uncut (start + nesting c) s := by
      rintro before after rfl
      have := uncut (c :: before) after rfl
      rw [depth_cons] at this
      omega
    rw [List.cons_append, segments, if_neg kept,
      ih later (by rwa [depth_cons, ← Int.add_assoc] at rest)]
    rfl

/-- A text that makes up a whole piece. -/
structure Piece (s : Text) : Prop where
  starts : Starts s
  ends : Ends s
  closed : depth s = 0
  uncut : Uncut 0 s

namespace Piece

theorem ne_nil (piece : Piece s) : s ≠ [] := piece.starts.ne_nil

theorem trim (piece : Piece s) : Text.trim s = s := trim_eq_self piece.starts piece.ends

theorem segments (piece : Piece s) : segments 0 s = [s] := by
  have nothing : Parameter.segments (0 + depth s) [] = [[]] := rfl
  simpa using segments_append piece.uncut nothing

theorem segments_comma (piece : Piece s) (t : Text) :
    Parameter.segments 0 (s ++ ',' :: t) = s :: Parameter.segments 0 t := by
  have comma : Parameter.segments (0 + depth s) (',' :: t) = [] :: Parameter.segments 0 t := by
    rw [piece.closed, Parameter.segments, if_pos ⟨rfl, rfl⟩, Int.add_zero]
  rw [segments_append piece.uncut comma, List.append_nil]

end Piece

theorem segments_space (s : Text) :
    (segments 0 (' ' :: s)).map trim = (segments 0 s).map trim := by
  rw [segments, if_neg (by decide)]
  split
  next segment others split =>
    have same : segments 0 s = segment :: others := split
    rw [same]
    rfl
  next split => exact absurd split (segments_ne_nil _ s)

theorem segments_joinWith {pieces : List Text} (some_piece : pieces ≠ [])
    (each : ∀ piece ∈ pieces, Piece piece) :
    (segments 0 (joinWith [',', ' '] pieces)).map trim = pieces := by
  induction pieces with
  | nil => exact absurd rfl some_piece
  | cons piece pieces ih =>
    obtain ⟨here, others⟩ := List.forall_mem_cons.mp each
    by_cases last : pieces = []
    · subst last
      rw [joinWith, here.segments, List.map_singleton, here.trim]
    · -- the space after the comma is trimmed off the next piece
      rw [joinWith_cons_of_ne_nil _ _ last, List.append_assoc, List.cons_append,
        List.singleton_append, here.segments_comma, List.map_cons, here.trim, segments_space,
        ih last others]

theorem joinWith_starts {separator : Text} {pieces : List Text} (some_piece : pieces ≠ [])
    (each : ∀ piece ∈ pieces, Piece piece) : Starts (joinWith separator pieces) := by
  cases pieces with
  | nil => exact absurd rfl some_piece
  | cons piece pieces =>
    have first := (each piece List.mem_cons_self).starts
    by_cases last : pieces = []
    · subst last
      exact first
    · rw [joinWith_cons_of_ne_nil _ _ last, List.append_assoc]
      exact first.append _

theorem joinWith_ends {separator : Text} {pieces : List Text} (some_piece : pieces ≠ [])
    (each : ∀ piece ∈ pieces, Piece piece) : Ends (joinWith separator pieces) := by
  induction pieces with
  | nil => exact absurd rfl some_piece
  | cons piece pieces ih =>
    obtain ⟨here, others⟩ := List.forall_mem_cons.mp each
    by_cases last : pieces = []
    · subst last
      exact here.ends
    · rw [joinWith_cons_of_ne_nil _ _ last]
      exact (ih last others).append _

theorem trim_joinWith {separator : Text} {pieces : List Text} (some_piece : pieces ≠ [])
    (each : ∀ piece ∈ pieces, Piece piece) :
    trim (joinWith separator pieces) = joinWith separator pieces :=
  trim_eq_self (joinWith_starts some_piece each) (joinWith_ends some_piece each)

theorem split_joinWith {pieces : List Text} (some_piece : pieces ≠ [])
    (each : ∀ piece ∈ pieces, Piece piece) : split (joinWith [',', ' '] pieces) = pieces := by
  rw [split, segments_joinWith some_piece each]
  -- a piece is not blank, so the last one counts
  have filled : pieces.getLast? ≠ some [] := fun last =>
    (each [] (List.mem_of_getLast? last)).ne_nil rfl
  rw [if_neg filled]

/-- A list that is not blank has a piece: the last one does not count if it is blank, but another one
stands before it then. -/
theorem split_ne_nil (filled : trim s ≠ []) : split s ≠ [] := by
  obtain ⟨piece, rest, cut⟩ := List.exists_cons_of_ne_nil (segments_ne_nil 0 s)
  unfold split
  dsimp only
  rw [cut]
  split
  next blank =>
    cases rest with
    | nil =>
      -- an only piece is the whole list
      cases eq_of_segments cut
      simp only [List.map_cons, List.map_nil, List.getLast?_singleton, Option.some.injEq] at blank
      exact absurd blank filled
    | cons other rest => simp
  next => simp

end CHeader.Parameter
