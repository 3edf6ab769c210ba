import CHeader.Proofs.Text.Directive
import CHeader.Proofs.Text.Word
import CHeader.Text.Flat

/-!
# The words of the lines that are kept

The words that are left of a text are those of the lines that `keptLines` keeps. So blank space at the
ends of lines matters only where it stands between a backslash and the end of a line that goes.
-/
namespace CHeader.Text

variable {s t line gap : Text} {c : Char}

/-! ## Words between blanks -/

theorem words_ne_nil (solid : isSpace c = false) (s : Text) : words (c :: s) ≠ [] := by
  cases s with
  | nil => simp [words, solid]
  | cons d s =>
    rw [words, if_neg (by simp [solid])]
    split
    · exact List.cons_ne_nil _ _
    · split <;> exact List.cons_ne_nil _ _

theorem words_cons (space : isSpace c = true) (s : Text) : words (c :: s) = words s := by
  simp [words, space]

theorem words_append_cons (space : isSpace c = true) (s t : Text) :
    words (s ++ c :: t) = words s ++ words t := by
  induction s with
  | nil => simp [words, space]
  | cons d s ih =>
    by_cases blank : isSpace d = true
    · simp [words, blank, ih]
    · cases s with
      | nil => simp [words, blank, space]
      | cons e s =>
        rw [List.cons_append, List.cons_append, words, words]
        simp only [blank, Bool.false_eq_true, ↓reduceIte]
        rw [← List.cons_append, ih]
        split
        next => rfl
        next solid =>
          -- the next character begins a word, to which this one belongs
          obtain ⟨word, others, cut⟩ :=
            List.exists_cons_of_ne_nil (words_ne_nil (by simpa using solid) s)
          simp [cut]

theorem words_eq_nil_of_blank (blank : ∀ c ∈ gap, isSpace c = true) : words gap = [] := by
  induction gap with
  | nil => rfl
  | cons c gap ih =>
    obtain ⟨here, others⟩ := List.forall_mem_cons.mp blank
    simp [words, here, ih others]

theorem words_append_of_blank (s : Text) (blank : ∀ c ∈ gap, isSpace c = true) :
    words (s ++ gap) = words s := by
  cases gap with
  | nil => rw [List.append_nil]
  | cons c gap =>
    obtain ⟨here, others⟩ := List.forall_mem_cons.mp blank
    rw [words_append_cons here, words_eq_nil_of_blank others, List.append_nil]

/-! ## The lines that are kept -/

/-- The lines with nothing in the place of those that go; `joined` says that the first one is joined
to a line that goes. -/
def keptLines : (joined : Bool) → List Text → List Text
  | _, [] => []
  | joined, line :: rest =>
    if joined || (directive? line).isSome then [] :: keptLines (continues line) rest
    else line :: keptLines false rest

/-- What a line says apart from the blank space in it: its words, and whether it begins a directive. -/
structure SameLine (line other : Text) : Prop where
  words : words line = words other
  directive : (directive? line).isSome = (directive? other).isSome

theorem words_keptLines_cons (line : Text) (rest : List Text) :
    (keptLines false (line :: rest)).flatMap words =
      if (directive? line).isSome then (keptLines (continues line) rest).flatMap words
      else words line ++ (keptLines false rest).flatMap words := by
  rw [keptLines, Bool.false_or]
  split <;> rfl

theorem words_keptLines_congr {lines others : List Text}
    (alike : List.Forall₂ (fun line other => SameLine line other ∧ continues line = continues other)
      lines others) (joined : Bool) :
    (keptLines joined lines).flatMap words = (keptLines joined others).flatMap words := by
  induction alike generalizing joined with
  | nil => rfl
  | cons here _ ih =>
    obtain ⟨same, ends⟩ := here
    simp only [keptLines, same.directive, ends]
    split
    next => simp only [List.flatMap_cons, ih]
    next => simp only [List.flatMap_cons, same.words, ih]

/-- No line that begins a directive is joined to the next one. -/
def Unjoined (lines : List Text) : Prop :=
  ∀ line ∈ lines.dropLast, (directive? line).isSome → continues line = false

/-- Where no directive goes on in a second line, it does not matter which of the other lines end in a
backslash. -/
theorem words_keptLines_of_unjoined {lines others : List Text}
    (alike : List.Forall₂ (fun line other => SameLine line other ∧
      (continues other = true → continues line = true)) lines others)
    (unjoined : Unjoined lines) :
    (keptLines false lines).flatMap words = (keptLines false others).flatMap words := by
  induction alike with
  | nil => rfl
  | @cons line other lines others here later ih =>
    obtain ⟨same, ends⟩ := here
    rw [words_keptLines_cons, words_keptLines_cons, ← same.directive, ← same.words]
    cases later with
    | nil => simp [keptLines]
    | @cons next second lines others here later =>
      have rest := ih fun piece member =>
        unjoined piece (by rw [List.dropLast_cons_cons]; exact List.mem_cons_of_mem _ member)
      split
      next opens =>
        have stops : continues line = false := unjoined line (by simp) opens
        have otherStops : continues other = false := by
          cases joins : continues other with
          | false => rfl
          | true => exact (ends joins).symm.trans stops
        rw [stops, otherStops, rest]
      next => rw [rest]

/-! ## Flat text -/

theorem words_following (lines : List Text) : words (following lines) = lines.flatMap words := by
  induction lines with
  | nil => rfl
  | cons line lines ih =>
    rw [following_cons, words_cons rfl, List.flatMap_cons, ← ih]
    cases lines with
    | nil => simp [following, words]
    | cons next lines => rw [following_cons, words_append_cons rfl, words_cons rfl]

/-- The empty lines in the place of lines that go hold no words. -/
theorem flatMap_words_dropDirectives (joined : Bool) (lines : List Text) :
    (dropDirectives joined lines).flatMap words = (keptLines joined lines).flatMap words := by
  fun_induction dropDirectives joined lines with
  | case1 => rfl
  | case2 line rest ih => simp [keptLines, words, ih]
  | case3 line rest opens ih => simp [keptLines, isSome_directive?, opens, words, ih]
  | case4 line rest plain ih => simp [keptLines, isSome_directive?, plain, ih]

/-- The words of flat text are those of the lines that are kept. -/
theorem flatten_eq (s : Text) :
    flatten s = joinWith [' ']
      ((keptLines false (splitOn '\n' (stripComments s))).flatMap words) := by
  have some_line := dropDirectives_ne_nil (splitOn_ne_nil '\n' (stripComments s))
  rw [flatten, collapse, stripDirectives_lines, ← flatMap_words_dropDirectives, ← words_following,
    ← cons_joinWith some_line, words_cons rfl]

end CHeader.Text
