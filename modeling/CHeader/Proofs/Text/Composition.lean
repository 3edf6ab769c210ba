import CHeader.Proofs.Text.Flat
import CHeader.Proofs.Text.LineBreak

/-!
# Flat text, line by line

A line break keeps the texts on both sides apart: each of them is flattened on its own, and a space
comes between the results. Two things can reach over the line break. A block comment that is opened in
front of it and not closed there is left as code, so that it shows in what stripping comments leaves;
and a directive goes on behind it if a backslash is left at the end.
-/
namespace CHeader.Text

variable {s t body after : Text}

/-! ## Comments in front of a line break -/

theorem splitThrough?_append_of_eq_some {mark : Text}
    (found : splitThrough? mark s = some (body, after)) (t : Text) :
    splitThrough? mark (s ++ t) = some (body, after ++ t) := by
  induction s generalizing body after with
  | nil =>
    obtain ⟨rest, leads, pair⟩ := Option.map_eq_some_iff.mp found
    cases pair
    -- only the empty mark is found in the empty text
    obtain ⟨rfl, rfl⟩ := List.append_eq_nil_iff.mp (dropLeading?_eq_some.mp leads).symm
    cases t <;> rfl
  | cons c rest ih =>
    rw [splitThrough?] at found
    rw [List.cons_append, splitThrough?]
    cases leads : dropLeading? mark (c :: rest) with
    | some later =>
      rw [leads] at found
      cases found
      have whole := dropLeading?_eq_some.mp leads
      have again : dropLeading? mark (c :: (rest ++ t)) = some (after ++ t) := by
        rw [dropLeading?_eq_some, ← List.cons_append, whole, List.append_assoc]
      rw [again]
    | none =>
      rw [leads] at found
      obtain ⟨⟨inner, later⟩, split, pair⟩ := Option.map_eq_some_iff.mp found
      cases pair
      -- the mark stands further behind, so there is room for it in the text
      have room : mark.length ≤ (c :: rest).length := by
        obtain ⟨inside, ends⟩ := splitThrough?_ends split
        have whole := splitThrough?_append split
        simp only [← whole, ends, List.length_cons, List.length_append]
        omega
      have apart : dropLeading? mark (c :: (rest ++ t)) = none := by
        rw [← Option.not_isSome_iff_eq_none, Option.isSome_iff_exists]
        rintro ⟨later, begins⟩
        have lead : mark <+: (c :: rest) ++ t := ⟨later, (dropLeading?_eq_some.mp begins).symm⟩
        obtain ⟨behind, whole⟩ :=
          List.prefix_of_prefix_length_le lead (List.prefix_append _ _) room
        rw [dropLeading?_eq_some.mpr whole.symm] at leads
        cases leads
      rw [apart, ih split]
      rfl

/-- A line ends at the first line break, whatever follows it. -/
theorem line_append (s t : Text) :
    (s ++ '\n' :: t).takeWhile (· ≠ '\n') = s.takeWhile (· ≠ '\n') ∧
      (s ++ '\n' :: t).dropWhile (· ≠ '\n') = s.dropWhile (· ≠ '\n') ++ '\n' :: t := by
  induction s with
  | nil => simp
  | cons c s ih =>
    by_cases ends : c = '\n'
    · simp [ends]
    · simpa [ends] using ih

theorem comment?_append_line (found : comment? s = some (body, after)) (t : Text) :
    comment? (s ++ '\n' :: t) = some (body, after ++ '\n' :: t) := by
  unfold comment? at found
  split at found
  next rest =>
    cases found
    have line := line_append rest t
    simp only [List.cons_append, comment?, line]
  next rest =>
    obtain ⟨⟨inner, later⟩, closed, pair⟩ := Option.map_eq_some_iff.mp found
    cases pair
    have again := splitThrough?_append_of_eq_some closed ('\n' :: t)
    simp only [List.cons_append, comment?, again, Option.map_some]
  next => cases found

/-- Where no comment opens, none opens with a line break behind the text, unless a block is opened
that is not closed. -/
theorem comment?_append_line_eq_none (filled : s ≠ []) (code : comment? s = none)
    (closed : ¬['/', '*'] <+: s) (t : Text) : comment? (s ++ '\n' :: t) = none := by
  obtain ⟨c, rest, rfl⟩ := List.exists_cons_of_ne_nil filled
  by_cases slash : c = '/'
  · subst slash
    cases rest with
    | nil => rfl
    | cons d rest =>
      have noLine : d ≠ '/' := by
        rintro rfl
        cases code
      have noBlock : d ≠ '*' := by
        rintro rfl
        exact closed ⟨rest, rfl⟩
      unfold comment?
      split <;> simp_all
  · unfold comment?
    split <;> simp_all

/-- Comments are stripped on both sides of a line break if no block is left open in front of it. -/
theorem stripComments_append_line (closed : ¬['/', '*'] <:+: stripComments s) (t : Text) :
    stripComments (s ++ '\n' :: t) = stripComments s ++ '\n' :: stripComments t := by
  -- a comment is taken off as a whole
  induction size : s.length using Nat.strongRecOn generalizing s with
  | ind size ih =>
    subst size
    cases comments : comment? s with
    | some found =>
      obtain ⟨body, after⟩ := found
      rw [stripComments_of_comment? comments] at closed ⊢
      have later : ¬['/', '*'] <:+: stripComments after := fun inside =>
        closed (inside.trans (List.suffix_append _ _).isInfix)
      rw [stripComments_of_comment? (comment?_append_line comments t),
        ih _ (comment?_length comments) later rfl, List.append_assoc]
    | none =>
      cases s with
      | nil =>
        have nothing : stripComments [] = [] := by
          rw [stripComments, segments]
          rfl
        rw [nothing]
        exact stripComments_cons rfl
      | cons c rest =>
        rw [stripComments_cons comments] at closed ⊢
        have later : ¬['/', '*'] <:+: stripComments rest := fun inside =>
          closed (inside.trans (List.suffix_cons c _).isInfix)
        have unopened : ¬['/', '*'] <+: c :: rest := by
          rintro ⟨tail, whole⟩
          cases whole
          -- a block that is not closed is left as it is
          have star : stripComments ('*' :: tail) = '*' :: stripComments tail :=
            stripComments_cons rfl
          exact closed ⟨[], stripComments tail, congrArg ('/' :: ·) star.symm⟩
        have code := comment?_append_line_eq_none (List.cons_ne_nil c rest) comments unopened t
        rw [List.cons_append] at code ⊢
        rw [stripComments_cons code, ih _ (Nat.lt_succ_self _) later rfl, List.cons_append]

/-! ## Lines -/

/-- A line that does not end in a backslash decides nothing about the lines that follow. -/
theorem keptLines_append (joined : Bool) (lines : List Text) {last : Text}
    (ends : continues last = false) (others : List Text) :
    keptLines joined (lines ++ last :: others) =
      keptLines joined (lines ++ [last]) ++ keptLines false others := by
  induction lines generalizing joined with
  | nil =>
    simp only [List.nil_append, keptLines, ends]
    split <;> rfl
  | cons line lines ih =>
    simp only [List.cons_append, keptLines, ih]
    split <;> rfl

/-- A text is cut into lines the last of which ends it. -/
theorem exists_last_line (s : Text) :
    ∃ lines last, splitOn '\n' s = lines ++ [last] ∧ last <:+ s := by
  obtain ⟨lines, last, cut⟩ := List.eq_nil_or_concat (splitOn '\n' s) |>.resolve_left
    (splitOn_ne_nil '\n' s)
  rw [List.concat_eq_append] at cut
  refine ⟨lines, last, cut, ?_⟩
  have whole := joinWith_splitOn '\n' s
  rw [cut] at whole
  have ending := suffix_joinWith_concat ['\n'] lines last
  rwa [whole] at ending

theorem continues_of_suffix {line : Text} (ending : line <:+ s) (joins : continues line = true) :
    s.getLast? = some '\\' := by
  obtain ⟨front, rfl⟩ := ending
  rw [continues, beq_iff_eq] at joins
  rw [List.getLast?_append, joins]
  rfl

/-- The words of two texts that a line break keeps apart. -/
theorem words_keptLines_append (unjoined : s.getLast? ≠ some '\\') (t : Text) :
    (keptLines false (splitOn '\n' (s ++ '\n' :: t))).flatMap words =
      (keptLines false (splitOn '\n' s)).flatMap words ++
        (keptLines false (splitOn '\n' t)).flatMap words := by
  obtain ⟨lines, last, cut, ending⟩ := exists_last_line s
  have ends : continues last = false := by
    by_contra joins
    exact unjoined (continues_of_suffix ending (by simpa using joins))
  rw [splitOn_append, cut, List.append_assoc, List.singleton_append,
    keptLines_append false lines ends, List.flatMap_append]

/-! ## Flat text -/

theorem ne_nil_of_mem_flatMap_words {lines : List Text} {word : Text}
    (member : word ∈ lines.flatMap words) : word ≠ [] := by
  obtain ⟨line, -, inside⟩ := List.mem_flatMap.mp member
  exact ne_nil_of_mem_words inside

/-- Words of both texts are separated by one space, if there are words in both. -/
theorem joinWith_append_of_ne_nil {words others : List Text} (filled : ∀ word ∈ words, word ≠ [])
    (othersFilled : ∀ word ∈ others, word ≠ []) :
    joinWith [' '] (words ++ others) =
      if joinWith [' '] words = [] then joinWith [' '] others
      else if joinWith [' '] others = [] then joinWith [' '] words
      else joinWith [' '] words ++ ' ' :: joinWith [' '] others := by
  split
  next empty => rw [eq_nil_of_joinWith filled empty, List.nil_append]
  next some_word =>
    split
    next empty => rw [eq_nil_of_joinWith othersFilled empty, List.append_nil]
    next more =>
      have front : words ≠ [] := fun nothing => some_word (by rw [nothing]; rfl)
      have back : others ≠ [] := fun nothing => more (by rw [nothing]; rfl)
      rw [joinWith_append _ front back, List.append_assoc, List.singleton_append]

/-- Two texts with a line break between them are flattened each on its own, and a space is put between
what is left of them, if something is left of both. No block comment may be left open in the first
one, and no backslash at its end. -/
theorem flatten_append_line (closed : ¬['/', '*'] <:+: stripComments s)
    (unjoined : (stripComments s).getLast? ≠ some '\\') (t : Text) :
    flatten (s ++ '\n' :: t) =
      if flatten s = [] then flatten t
      else if flatten t = [] then flatten s
      else flatten s ++ ' ' :: flatten t := by
  rw [flatten_eq (s ++ '\n' :: t), stripComments_append_line closed,
    words_keptLines_append unjoined, flatten_eq s, flatten_eq t]
  apply joinWith_append_of_ne_nil
  · exact fun word member => ne_nil_of_mem_flatMap_words member
  · exact fun word member => ne_nil_of_mem_flatMap_words member

/-- A declaration over a comment, a line comment that names the mark of a block, and a directive that
has gone on to a second line. -/
theorem flatten_append_line_declaration :
    let s := "int /* a\n b */ f(int x, // no /*\n#define N 4 \\\n + 5".toList
    let t := "  int y); /* open".toList
    ¬['/', '*'] <:+: stripComments s ∧ (stripComments s).getLast? ≠ some '\\' ∧
      flatten (s ++ '\n' :: t) = "int f(int x, int y); /* open".toList := by
  intro s t
  have stripped : stripComments s = "int \n f(int x,  \n#define N 4 \\\n + 5".toList := by
    change stripComments "int /* a\n b */ f(int x, // no /*\n#define N 4 \\\n + 5".toList = _
    cbv
  have first : flatten s = "int f(int x,".toList := by
    change flatten "int /* a\n b */ f(int x, // no /*\n#define N 4 \\\n + 5".toList = _
    cbv
  have second : flatten t = "int y); /* open".toList := by
    change flatten "  int y); /* open".toList = _
    cbv
  have closed : ¬['/', '*'] <:+: stripComments s := by
    intro opened
    -- no slash is left at all
    have absent : '/' ∉ stripComments s := by
      rw [stripped]
      decide
    exact absent (opened.subset List.mem_cons_self)
  have unjoined : (stripComments s).getLast? ≠ some '\\' := by
    rw [stripped]
    decide
  refine ⟨closed, unjoined, ?_⟩
  rw [flatten_append_line closed unjoined, first, second]
  decide

end CHeader.Text
