import CHeader.Proofs.Parameter.Split

/-!
# The pieces of a list

A list can be written in one way as pieces with commas between them, if every piece but the last opens
as many parentheses as it closes and no piece has a comma in front of which that is so. Those are the
pieces that splitting trims: a comma that stands deeper, or behind more closed than opened
parentheses, belongs to its piece.
-/
namespace CHeader.Parameter

open Text

variable {s piece : Text} {pieces : List Text}

/-! ## Levels -/

/-- As many parentheses are opened as are closed. -/
def Level (s : Text) : Prop := s.count '(' = s.count ')'

instance : DecidablePred Level := fun s => inferInstanceAs (Decidable (s.count '(' = s.count ')'))

theorem depth_eq_count (s : Text) : depth s = (s.count '(' : Int) - s.count ')' := by
  induction s with
  | nil => rfl
  | cons c s ih =>
    rw [depth_cons, ih, nesting]
    by_cases opens : c = '('
    · subst opens
      simp
      omega
    · by_cases closes : c = ')'
      · subst closes
        simp
        omega
      · simp [opens, closes]

theorem level_iff : Level s ↔ depth s = 0 := by
  rw [Level, depth_eq_count]
  omega

/-- No comma stands where as many parentheses are closed as were opened. -/
def Inseparable (s : Text) : Prop := ∀ before after, s = before ++ ',' :: after → ¬Level before

theorem inseparable_iff : Inseparable s ↔ Uncut 0 s := by
  simp only [Inseparable, Uncut, level_iff, Int.zero_add, ne_eq]

/-- Commas are looked for place by place. -/
instance : DecidablePred Inseparable := fun s =>
  decidable_of_iff (∀ place < s.length, s[place]? = some ',' → ¬Level (s.take place)) (by
    constructor
    · rintro each before after rfl
      simpa using each before.length (by simp) (by simp)
    · intro whole place _ comma
      obtain ⟨inside, sign⟩ := List.getElem?_eq_some_iff.mp comma
      apply whole _ (s.drop (place + 1))
      rw [← sign, List.getElem_cons_drop, List.take_append_drop])

/-! ## Pieces from a depth on -/

/-- The pieces of a text that starts at the given depth: a piece ends at the first comma at depth zero,
so that all the others start there. -/
inductive Separated : (start : Int) → Text → List Text → Prop
  | last {start : Int} {piece : Text} (uncut : Uncut start piece) : Separated start piece [piece]
  | comma {start : Int} {piece rest : Text} {pieces : List Text} (uncut : Uncut start piece)
      (closed : start + depth piece = 0) (later : Separated 0 rest pieces) :
      Separated start (piece ++ ',' :: rest) (piece :: pieces)

theorem uncut_cons {start : Int} {c : Char} (inside : ¬(c = ',' ∧ start = 0))
    (uncut : Uncut (start + nesting c) s) : Uncut start (c :: s) := by
  intro before after same
  cases before with
  | nil =>
    cases same
    simpa using inside
  | cons d before =>
    cases same
    have := uncut before after rfl
    rw [depth_cons]
    omega

theorem Separated.cons {start : Int} {c : Char} {first : Text} {others : List Text}
    (inside : ¬(c = ',' ∧ start = 0))
    (separated : Separated (start + nesting c) s (first :: others)) :
    Separated start (c :: s) ((c :: first) :: others) := by
  cases separated with
  | last uncut => exact .last (uncut_cons inside uncut)
  | comma uncut closed later =>
    refine .comma (uncut_cons inside uncut) ?_ later
    rw [depth_cons]
    omega

theorem separated_segments (start : Int) (s : Text) : Separated start s (segments start s) := by
  induction s generalizing start with
  | nil => exact .last (uncut_of_not_mem List.not_mem_nil)
  | cons c rest ih =>
    rw [segments]
    split
    next comma =>
      obtain ⟨rfl, rfl⟩ := comma
      exact .comma (uncut_of_not_mem List.not_mem_nil) rfl (ih 0)
    next inside =>
      have later := ih (start + nesting c)
      split
      next first others cut =>
        rw [cut] at later
        exact later.cons inside
      next nothing => exact absurd nothing (segments_ne_nil _ rest)

/-- There is no choice in where the pieces end. -/
theorem Separated.eq_segments {start : Int} (separated : Separated start s pieces) :
    pieces = segments start s := by
  induction separated with
  | @last start piece uncut =>
    have nothing : segments (start + depth piece) [] = [[]] := rfl
    simpa using (segments_append uncut nothing).symm
  | @comma start piece rest pieces uncut closed _ ih =>
    have comma : segments (start + depth piece) (',' :: rest) = [] :: segments 0 rest := by
      rw [closed, segments, if_pos ⟨rfl, rfl⟩]
    rw [segments_append uncut comma, List.append_nil, ih]

/-! ## Decompositions -/

/-- A way to write a text as pieces with commas between them. -/
structure Decomposition (s : Text) (pieces : List Text) : Prop where
  filled : pieces ≠ []
  joined : joinWith [','] pieces = s
  level : ∀ piece ∈ pieces.dropLast, Level piece
  whole : ∀ piece ∈ pieces, Inseparable piece

theorem Decomposition.separated (decomposition : Decomposition s pieces) :
    Separated 0 s pieces := by
  obtain ⟨filled, rfl, level, whole⟩ := decomposition
  induction pieces with
  | nil => exact absurd rfl filled
  | cons piece pieces ih =>
    obtain ⟨here, others⟩ := List.forall_mem_cons.mp whole
    by_cases last : pieces = []
    · subst last
      exact .last (inseparable_iff.mp here)
    · rw [List.dropLast_cons_of_ne_nil last] at level
      obtain ⟨closed, later⟩ := List.forall_mem_cons.mp level
      rw [joinWith_cons_of_ne_nil _ _ last, List.append_assoc, List.singleton_append]
      refine .comma (inseparable_iff.mp here) ?_ (ih last later others)
      rw [Int.zero_add, level_iff.mp closed]

theorem Separated.decomposition (separated : Separated 0 s pieces) : Decomposition s pieces := by
  generalize zero : (0 : Int) = start at separated
  induction separated with
  | @last start piece uncut =>
    subst zero
    have whole : Inseparable piece := inseparable_iff.mpr uncut
    exact ⟨List.cons_ne_nil _ _, rfl, by simp, by simpa using whole⟩
  | @comma start piece rest pieces uncut closed _ ih =>
    subst zero
    obtain ⟨filled, rfl, level, whole⟩ := ih rfl
    have first : Level piece := level_iff.mpr (by rwa [Int.zero_add] at closed)
    refine ⟨List.cons_ne_nil _ _, ?_, ?_, ?_⟩
    · rw [joinWith_cons_of_ne_nil _ _ filled, List.append_assoc, List.singleton_append]
    · rw [List.dropLast_cons_of_ne_nil filled]
      exact List.forall_mem_cons.mpr ⟨first, level⟩
    · exact List.forall_mem_cons.mpr ⟨inseparable_iff.mpr uncut, whole⟩

/-- The pieces at depth zero are the only ones that a text can be written as. -/
theorem decomposition_iff : Decomposition s pieces ↔ pieces = segments 0 s := by
  constructor
  · intro decomposition
    exact decomposition.separated.eq_segments
  · rintro rfl
    exact (separated_segments 0 s).decomposition

theorem split_of_decomposition {front : List Text} {last : Text}
    (decomposition : Decomposition s (front ++ [last])) :
    split s = front.map trim ++ if trim last = [] then [] else [trim last] := by
  rw [split, ← decomposition_iff.mp decomposition]
  by_cases blank : trim last = []
  · simp [blank]
  · simp [blank]

theorem split_joinWith_comma (some_piece : pieces ≠ [])
    (each : ∀ piece ∈ pieces, Level piece ∧ Inseparable piece)
    (filled : ∀ piece ∈ pieces, trim piece ≠ []) :
    split (joinWith [','] pieces) = pieces.map trim := by
  obtain ⟨front, last, rfl⟩ := List.eq_nil_or_concat pieces |>.resolve_left some_piece
  rw [List.concat_eq_append] at *
  have decomposition : Decomposition (joinWith [','] (front ++ [last])) (front ++ [last]) :=
    ⟨some_piece, rfl, fun piece member => (each piece (List.dropLast_subset _ member)).1,
      fun piece member => (each piece member).2⟩
  rw [split_of_decomposition decomposition, if_neg (filled last (by simp)), List.map_append]
  rfl

/-- Splitting trims the pieces of the one decomposition there is, and leaves out the last of them if it
is blank. In particular it undoes joining pieces that are trimmed, not blank, and level. -/
theorem split_decomposition (s : Text) :
    (∃ front last, Decomposition s (front ++ [last]) ∧
      (∀ pieces, Decomposition s pieces → pieces = front ++ [last]) ∧
      split s = front.map trim ++ if trim last = [] then [] else [trim last]) ∧
    ∀ segments : List Text, s = joinWith [',', ' '] segments →
      (∀ segment ∈ segments, segment ≠ [] ∧ trim segment = segment ∧ Level segment ∧
        Inseparable segment) → split s = segments := by
  constructor
  · obtain ⟨front, last, cut⟩ := List.eq_nil_or_concat (segments 0 s)
      |>.resolve_left (segments_ne_nil 0 s)
    rw [List.concat_eq_append] at cut
    have decomposition : Decomposition s (front ++ [last]) := decomposition_iff.mpr cut.symm
    refine ⟨front, last, decomposition, ?_, split_of_decomposition decomposition⟩
    intro pieces other
    rw [decomposition_iff.mp other, cut]
  · rintro segments rfl each
    by_cases empty : segments = []
    · subst empty
      rfl
    · refine split_joinWith empty fun segment member => ?_
      obtain ⟨filled, trimmed, level, whole⟩ := each segment member
      exact ⟨starts_of_trim filled trimmed, ends_of_trim filled trimmed, level_iff.mp level,
        inseparable_iff.mp whole⟩

/-- A callback keeps the comma of its arguments. -/
theorem split_decomposition_callback :
    (∀ segment ∈ ["int a".toList, "void (*cb)(int, char*)".toList, "double d".toList],
      segment ≠ [] ∧ trim segment = segment ∧ Level segment ∧ Inseparable segment) ∧
    split "int a, void (*cb)(int, char*), double d".toList =
      ["int a".toList, "void (*cb)(int, char*)".toList, "double d".toList] := by
  have each : ∀ segment ∈ ["int a".toList, "void (*cb)(int, char*)".toList, "double d".toList],
      segment ≠ [] ∧ trim segment = segment ∧ Level segment ∧ Inseparable segment := by decide
  exact ⟨each, (split_decomposition _).2 _ rfl each⟩

end CHeader.Parameter
