import CHeader.Proofs.Text.Word
import Mathlib.Data.List.TakeWhile

/-!
# What scanning passes

The steps of a scan pass words, blank space and stars. A sign stops them, so that it is still there
when a step is done.
-/
namespace CHeader.Text

variable {s t u : Text} {c : Char}

/-- A character of a word, blank space, or a star. -/
def IsPassed (c : Char) : Prop := isWord c = true ∨ isSpace c = true ∨ c = '*'

instance : DecidablePred IsPassed := fun _ => inferInstanceAs (Decidable (_ ∨ _ ∨ _))

/-- The second text is left of the first one after words, blank space and stars. -/
def Past (s t : Text) : Prop := ∃ lead, s = lead ++ t ∧ ∀ c ∈ lead, IsPassed c

theorem Past.refl (s : Text) : Past s s := ⟨[], rfl, by simp⟩

theorem Past.trans (first : Past s t) (second : Past t u) : Past s u := by
  obtain ⟨lead, rfl, passed⟩ := first
  obtain ⟨more, rfl, others⟩ := second
  refine ⟨lead ++ more, by simp, fun c member => ?_⟩
  exact (List.mem_append.mp member).elim (passed c) (others c)

theorem past_cons (passed : IsPassed c) (s : Text) : Past (c :: s) s :=
  ⟨[c], rfl, by simpa using passed⟩

theorem past_dropWhile {p : Char → Bool} (kind : ∀ c, p c = true → IsPassed c) (s : Text) :
    Past s (s.dropWhile p) :=
  ⟨s.takeWhile p, List.takeWhile_append_dropWhile.symm, fun c member =>
    kind c (List.mem_takeWhile_imp member)⟩

theorem past_trimStart (s : Text) : Past s (trimStart s) :=
  past_dropWhile (fun _ space => Or.inr (Or.inl space)) s

theorem past_word? {word rest : Text} (found : word? s = some (word, rest)) : Past s rest := by
  unfold word? at found
  split at found
  · cases found
  · cases found
    exact past_dropWhile (fun _ => Or.inl) s

theorem past_blank? {rest : Text} (found : blank? s = some rest) : Past s rest := by
  cases s with
  | nil => cases found
  | cons c s =>
    simp only [blank?, Option.ite_none_right_eq_some, Option.some.injEq] at found
    obtain ⟨space, rfl⟩ := found
    exact (past_cons (Or.inr (Or.inl space)) s).trans (past_trimStart s)

theorem past_dropLeading? {leading rest : Text} (found : dropLeading? leading s = some rest)
    (words : ∀ c ∈ leading, isWord c = true) : Past s rest :=
  ⟨leading, dropLeading?_eq_some.mp found, fun c member => Or.inl (words c member)⟩

theorem past_stars (s : Text) : Past s (stars s).2 := by
  induction s with
  | nil => exact .refl []
  | cons c rest ih =>
    rw [stars]
    split
    next star => exact (past_cons (Or.inr (Or.inr star)) rest).trans ih
    next =>
      split
      next space =>
        have blank := (Bool.and_eq_true_iff.mp space).1
        exact (past_cons (Or.inr (Or.inl blank)) rest).trans ih
      next => exact .refl _

/-- A sign that is not passed comes first, or it stands behind whatever else is not passed. -/
theorem Past.mem_or_eq {sign : Char} {rest after : Text} (past : Past s (sign :: after))
    (whole : s = t ++ c :: rest) (barrier : ¬IsPassed c) : sign ∈ t ∨ sign = c := by
  obtain ⟨lead, same, passed⟩ := past
  rw [whole] at same
  rcases List.append_eq_append_iff.mp same with ⟨more, rfl, next⟩ | ⟨more, rfl, next⟩
  · cases more with
    | nil =>
      cases next
      exact Or.inr rfl
    | cons d more =>
      -- the character itself would have been passed
      cases next
      exact absurd (passed c (by simp)) barrier
  · cases more with
    | nil =>
      cases next
      exact Or.inr rfl
    | cons d more =>
      cases next
      exact Or.inl (by simp)

end CHeader.Text
