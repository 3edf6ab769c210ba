import CHeader.Proofs.Text.Comment
import CHeader.Proofs.Text.Word
import CHeader.Text.Flat
import Mathlib.Data.List.TakeWhile

/-!
# Flattening

Flattening a text without comments and directives turns each run of blank space into one space, and
drops it at both ends. Where a character stands that is not blank, both sides of it are flattened on
their own.
-/
namespace CHeader.Text

variable {s t : Text} {c : Char}

/-! ## Runs of blank space -/

/-- One space in place of each run of blank space. -/
def squeeze : Text → Text
  | [] => []
  | c :: rest =>
    if isSpace c then if rest.head?.any isSpace then squeeze rest else ' ' :: squeeze rest
    else c :: squeeze rest

theorem squeeze_cons (solid : isSpace c = false) (s : Text) :
    squeeze (c :: s) = c :: squeeze s := by
  rw [squeeze, if_neg (by simp [solid])]

theorem squeeze_cons_blank (space : isSpace c = true) (s : Text) :
    squeeze (c :: s) = if s.head?.any isSpace then squeeze s else ' ' :: squeeze s := by
  rw [squeeze, if_pos space]

theorem squeeze_append_cons (solid : isSpace c = false) (s t : Text) :
    squeeze (s ++ c :: t) = squeeze s ++ c :: squeeze t := by
  induction s with
  | nil => exact squeeze_cons solid t
  | cons d s ih =>
    by_cases space : isSpace d = true
    · cases s with
      | nil =>
        -- the run ends before the character
        simp [squeeze, space, solid]
      | cons next s =>
        rw [List.cons_append, squeeze_cons_blank space, squeeze_cons_blank space, ih]
        by_cases more : isSpace next = true <;> simp [more]
    · have kept : isSpace d = false := by simpa using space
      rw [List.cons_append, squeeze_cons kept, ih, squeeze_cons kept, List.cons_append]

theorem squeeze_append_of_starts (s : Text) (starts : Starts t) :
    squeeze (s ++ t) = squeeze s ++ squeeze t := by
  obtain ⟨c, first, solid⟩ := starts
  obtain ⟨rest, rfl⟩ := List.head?_eq_some_iff.mp first
  rw [squeeze_append_cons solid, squeeze_cons solid]

theorem squeeze_append_of_ends (ends : Ends s) (t : Text) :
    squeeze (s ++ t) = squeeze s ++ squeeze t := by
  obtain ⟨c, last, solid⟩ := ends
  obtain ⟨before, rfl⟩ := List.getLast?_eq_some_iff.mp last
  rw [List.append_assoc, List.singleton_append, squeeze_append_cons solid,
    squeeze_append_cons solid]
  simp [squeeze]

theorem squeeze_space (starts : Starts s) : squeeze (' ' :: s) = ' ' :: squeeze s := by
  obtain ⟨c, first, solid⟩ := starts
  rw [squeeze_cons_blank (by decide), if_neg]
  simp [Option.mem_def.mp first, solid]

theorem squeeze_append_of_solid (solid : ∀ c ∈ s, isSpace c = false) (t : Text) :
    squeeze (s ++ t) = s ++ squeeze t := by
  induction s with
  | nil => rfl
  | cons c s ih =>
    obtain ⟨here, others⟩ := List.forall_mem_cons.mp solid
    rw [List.cons_append, squeeze_cons here, ih others, List.cons_append]

theorem squeeze_word_append (word : Word) (t : Text) :
    squeeze (word.text ++ t) = word.text ++ squeeze t :=
  squeeze_append_of_solid (fun c member => isSpace_of_isWord (word.chars c member)) t

theorem squeeze_word (word : Word) : squeeze word.text = word.text := by
  have whole := squeeze_word_append word []
  rwa [List.append_nil, squeeze, List.append_nil] at whole

theorem mem_squeeze (member : c ∈ squeeze s) : c = ' ' ∨ c ∈ s := by
  fun_induction squeeze s with
  | case1 => exact Or.inr member
  | case2 d rest space more ih => exact (ih member).imp_right (List.mem_cons_of_mem d)
  | case3 d rest space last ih =>
    rcases List.mem_cons.mp member with same | later
    · exact Or.inl same
    · exact (ih later).imp_right (List.mem_cons_of_mem d)
  | case4 d rest solid ih =>
    rcases List.mem_cons.mp member with same | later
    · exact Or.inr (same ▸ List.mem_cons_self)
    · exact (ih later).imp_right (List.mem_cons_of_mem d)

theorem not_mem_squeeze (absent : c ∉ s) (sign : c ≠ ' ') : c ∉ squeeze s := fun member =>
  (mem_squeeze member).elim sign absent

theorem Starts.squeeze (starts : Starts s) : Starts (squeeze s) := by
  obtain ⟨c, first, solid⟩ := starts
  obtain ⟨rest, rfl⟩ := List.head?_eq_some_iff.mp first
  rw [squeeze_cons solid]
  exact starts_cons solid _

theorem Ends.squeeze (ends : Ends s) : Ends (squeeze s) := by
  obtain ⟨c, last, solid⟩ := ends
  obtain ⟨before, rfl⟩ := List.getLast?_eq_some_iff.mp last
  rw [squeeze_append_cons solid]
  exact ends_concat solid _

/-- A run of blank space is one space in front of the rest. -/
theorem squeeze_blank (space : isSpace c = true) (s : Text) :
    squeeze (c :: s) = ' ' :: trimStart (squeeze (c :: s)) := by
  induction s generalizing c with
  | nil =>
    rw [squeeze_cons_blank space]
    rfl
  | cons d s ih =>
    rw [squeeze_cons_blank space]
    by_cases more : isSpace d = true
    · rw [if_pos (by simpa using more)]
      exact ih more
    · have solid : isSpace d = false := by simpa using more
      rw [if_neg (by simpa using more), trimStart_space, squeeze_cons solid, trimStart_cons solid]

theorem head?_of_squeeze (first : (squeeze s).head? = some c) (sign : c ≠ ' ') :
    s.head? = some c := by
  cases s with
  | nil => exact first
  | cons d rest =>
    by_cases space : isSpace d = true
    · rw [squeeze_blank space] at first
      exact absurd (Option.some.inj first).symm sign
    · rwa [squeeze_cons (by simpa using space)] at first

/-- Blank space keeps the characters on both sides apart. -/
theorem Unopened.squeeze (unopened : Unopened s) : Unopened (squeeze s) := by
  fun_induction Text.squeeze s with
  | case1 => exact unopened
  | case2 d rest space more ih => exact ih (unopened_cons_iff.mp unopened).2
  | case3 d rest space last ih =>
    rw [unopened_cons_iff]
    exact ⟨fun slash => absurd slash (by decide), ih (unopened_cons_iff.mp unopened).2⟩
  | case4 d rest solid ih =>
    obtain ⟨here, later⟩ := unopened_cons_iff.mp unopened
    rw [unopened_cons_iff]
    refine ⟨fun slash e first => ?_, ih later⟩
    by_cases sign : e = ' '
    · rw [sign]
      decide
    · exact here slash e (head?_of_squeeze first sign)

/-! ## Collapsing -/

theorem ne_nil_of_mem_words {word : Text} (member : word ∈ words s) : word ≠ [] := by
  fun_induction words s with
  | case1 => cases member
  | case2 c rest space ih => exact ih member
  | case3 c => simp_all
  | case4 c solid next rest space ih =>
    rcases List.mem_cons.mp member with rfl | later
    · exact List.cons_ne_nil _ _
    · exact ih later
  | case5 c solid next rest kept first others cut ih =>
    rw [cut] at ih member
    rcases List.mem_cons.mp member with rfl | later
    · exact List.cons_ne_nil _ _
    · exact ih (List.mem_cons_of_mem first later)
  | case6 c => simp_all

theorem trimStart_squeeze (space : isSpace c = true) (s : Text) :
    trimStart (squeeze (c :: s)) = trimStart (squeeze s) := by
  rw [squeeze_cons_blank space]
  split <;> rfl

/-- Trimming at the end stops at a character that is not blank. -/
theorem trimEnd_append (s : Text) (starts : Starts t) : trimEnd (s ++ t) = s ++ trimEnd t := by
  obtain ⟨c, first, solid⟩ := starts
  obtain ⟨rest, rfl⟩ := List.head?_eq_some_iff.mp first
  -- from behind, trimming never gets past the character
  have stops (lead : Text) : (rest.reverse ++ c :: lead).dropWhile isSpace =
      rest.reverse.dropWhile isSpace ++ c :: lead := by
    rw [List.dropWhile_append, List.dropWhile_cons_of_neg (by simp [solid])]
    split
    next empty => rw [List.isEmpty_iff.mp empty, List.nil_append]
    next => rfl
  simp only [trimEnd, dropEndWhile, List.reverse_append, List.reverse_cons, List.append_assoc,
    List.cons_append, List.nil_append, stops]
  simp

theorem words_eq_nil (empty : joinWith [' '] (words s) = []) : words s = [] :=
  eq_nil_of_joinWith (fun _ member => ne_nil_of_mem_words member) empty

theorem collapse_eq (s : Text) : collapse s = trim (squeeze s) := by
  unfold collapse
  fun_induction words s with
  | case1 => rfl
  | case2 c rest space ih => rw [ih, trim, trim, trimStart_squeeze space]
  | case3 c blank =>
    -- the text is one character
    have solid : isSpace c = false := by simpa using blank
    rw [squeeze_cons solid, joinWith]
    exact (trim_eq_self (starts_cons solid []) (ends_concat solid [])).symm
  | case4 c blank next rest space ih =>
    have solid : isSpace c = false := by simpa using blank
    have whole : squeeze (c :: next :: rest) =
        [c, ' '] ++ trimStart (squeeze (next :: rest)) := by
      rw [squeeze_cons solid]
      exact congrArg (c :: ·) (squeeze_blank space rest)
    rw [whole, trim, ((starts_cons solid [' ']).append _).trimStart]
    by_cases last : trimStart (squeeze (next :: rest)) = []
    · -- only blank space follows the word
      rw [trim, last] at ih
      rw [words_eq_nil ih, last]
      exact (dropEndWhile_concat solid []).symm.trans (dropEndWhile_append [c] (by decide)).symm
    · have starts := starts_trimStart last
      have more : words (next :: rest) ≠ [] := by
        intro nothing
        rw [nothing, trim] at ih
        exact trimEnd_ne_nil starts ih.symm
      rw [trimEnd_append _ starts, joinWith_cons_of_ne_nil _ _ more, ih, trim]
      rfl
  | case5 c blank next rest kept first others cut ih =>
    -- the character belongs to the first word of the rest
    have solid : isSpace c = false := by simpa using blank
    have starts : Starts (squeeze (next :: rest)) :=
      (starts_cons (by simpa using kept) rest).squeeze
    rw [cut, trim, starts.trimStart] at ih
    have whole := trimEnd_append [c] starts
    rw [squeeze_cons solid, trim, (starts_cons solid _).trimStart]
    rw [← ih, append_joinWith_cons] at whole
    rw [cut]
    exact whole.symm
  | case6 c blank next rest kept cut ih =>
    have starts : Starts (squeeze (next :: rest)) :=
      (starts_cons (by simpa using kept) rest).squeeze
    -- a text that starts with a character has words
    rw [cut, trim, starts.trimStart] at ih
    exact absurd ih.symm (trimEnd_ne_nil starts)

/-- What the blank space at the ends is leaves no trace. -/
theorem collapse_of_starts_ends (starts : Starts s) (ends : Ends s) : collapse s = squeeze s := by
  rw [collapse_eq, trim_eq_self starts.squeeze ends.squeeze]

theorem words_eq_singleton (filled : s ≠ []) (solid : ∀ c ∈ s, isSpace c = false) :
    words s = [s] := by
  induction s with
  | nil => exact absurd rfl filled
  | cons c s ih =>
    obtain ⟨here, others⟩ := List.forall_mem_cons.mp solid
    cases s with
    | nil => simp [words, here]
    | cons next s =>
      have kept := others next List.mem_cons_self
      rw [words, if_neg (by simp [here])]
      simp only [kept, Bool.false_eq_true, ↓reduceIte]
      rw [ih (List.cons_ne_nil _ _) others]

/-! ## Directives -/

theorem directive?_eq_none (absent : '#' ∉ s) : directive? s = none := by
  unfold directive?
  split
  next after opened =>
    have inside : '#' ∈ s.dropWhile isIndent := by simp [opened]
    exact absurd ((List.dropWhile_suffix isIndent).subset inside) absent
  next => rfl

theorem stripDirectives_eq_self (absent : '#' ∉ s) : stripDirectives s = s := by
  fun_induction stripDirectives s with
  | case1 s body left =>
    simp [body, directive?_eq_none absent]
  | case2 s body lineBreak rest left shorter fewer ih =>
    have same : body = s := by simp [body, directive?_eq_none absent]
    rw [same] at left ⊢
    -- each line is left as it is
    have whole := List.takeWhile_append_dropWhile (p := (· ≠ '\n')) (l := s)
    rw [left] at whole
    have later : '#' ∉ rest := by
      intro member
      exact absent (whole ▸ List.mem_append_right _ (List.mem_cons_of_mem _ member))
    rw [ih later]
    exact whole

theorem flatten_eq_collapse (uncommented : ¬HasComment s) (absent : '#' ∉ s) :
    flatten s = collapse s := by
  rw [flatten, stripComments_eq_self uncommented, stripDirectives_eq_self absent]

end CHeader.Text
