import CHeader.Parameter
import CHeader.Proofs.Text.Word

/-!
# The shortest type

Both readings of a parameter take the shortest type there is: a function pointer is read behind the
first place that its closing part follows, and a name behind the first blank or star that nothing but
the name and its dimensions follow.
-/
namespace CHeader.Parameter

open Text

variable {s type returns name arguments sizes : Text}

/-! ## Function pointers -/

/-- A type that a function pointer returns, by the text behind it: no shorter one would do. -/
structure Returned (returns tail name arguments : Text) : Prop where
  filled : returns ≠ []
  oneLine : '\n' ∉ returns
  closes : pointerTail? tail = some (name, arguments)
  shortest (lead more : Text) (split : returns = lead ++ more) (shorter : lead ≠ [])
    (left : more ≠ []) : pointerTail? (more ++ tail) = none

theorem Returned.functionPointer? {tail : Text} (returned : Returned returns tail name arguments) :
    functionPointer? (returns ++ tail) = some (returns, name, arguments) := by
  obtain ⟨filled, oneLine, closes, shortest⟩ := returned
  induction returns with
  | nil => exact absurd rfl filled
  | cons c rest ih =>
    simp only [List.mem_cons, not_or] at oneLine
    rw [List.cons_append, Parameter.functionPointer?, if_neg (Ne.symm oneLine.1)]
    by_cases single : rest = []
    · subst single
      rw [List.nil_append, closes]
    · -- one character is too short, and the rest is the shortest type of what follows it
      rw [shortest [c] rest rfl (List.cons_ne_nil c []) single,
        ih single oneLine.2 fun lead more split _ left =>
          shortest (c :: lead) more (congrArg (c :: ·) split) (List.cons_ne_nil c lead) left]
      rfl

theorem exists_returned (found : functionPointer? s = some (returns, name, arguments)) :
    ∃ tail, s = returns ++ tail ∧ Returned returns tail name arguments := by
  induction s generalizing returns with
  | nil => cases found
  | cons c rest ih =>
    rw [functionPointer?] at found
    split at found
    next => cases found
    next inside =>
      split at found
      next closed tail =>
        cases found
        refine ⟨rest, rfl, List.cons_ne_nil _ _, by simpa using Ne.symm inside, tail, ?_⟩
        rintro lead more split shorter left
        simp [List.singleton_eq_append_iff, shorter, left] at split
      next longer =>
        obtain ⟨⟨later, found⟩, again, pair⟩ := Option.map_eq_some_iff.mp found
        cases pair
        obtain ⟨tail, rfl, returned⟩ := ih again
        refine ⟨tail, rfl, List.cons_ne_nil _ _, ?_, returned.closes, ?_⟩
        · simpa using ⟨Ne.symm inside, returned.oneLine⟩
        · rintro lead more split shorter left
          obtain ⟨rfl, -⟩ | ⟨front, rfl, rfl⟩ := List.cons_eq_append_iff.mp split
          · exact absurd rfl shorter
          · by_cases single : front = []
            · subst single
              exact longer
            · exact returned.shortest front more rfl single left

/-! ## Types with a name -/

/-- A type in front of a name, by the text behind it: no shorter one would do. -/
structure Declared (type rest name sizes : Text) : Prop where
  separated : ∃ front separator, type = front ++ [separator] ∧ '\n' ∉ front ∧
    (isSpace separator || separator = '*') = true
  declarator : declarator? rest = some (name, sizes)
  shortest (lead more : Text) (separator : Char) (split : type = lead ++ separator :: more)
    (separates : (isSpace separator || separator = '*') = true) (left : more ≠ []) :
    declarator? (more ++ rest) = none

theorem Declared.declaration? {rest : Text} (declared : Declared type rest name sizes) :
    declaration? (type ++ rest) = some (type, name, sizes) := by
  obtain ⟨⟨front, separator, rfl, oneLine, separates⟩, declarator, shortest⟩ := declared
  induction front with
  | nil =>
    rw [List.nil_append, List.singleton_append, Parameter.declaration?, if_pos separates, declarator]
  | cons c front ih =>
    simp only [List.mem_cons, not_or] at oneLine
    have later := ih (fun lead more between split =>
      shortest (c :: lead) more between (by simp [split])) oneLine.2
    -- what follows one character is too much for a name with dimensions
    have longer : (if (isSpace c || c = '*') = true then
        declarator? (front ++ [separator] ++ rest) else none) = none := by
      split
      next separates => exact shortest [] _ c rfl separates (by simp)
      next => rfl
    rw [List.cons_append, List.cons_append, Parameter.declaration?, longer]
    dsimp only
    rw [if_neg (Ne.symm oneLine.1), later]
    rfl

theorem exists_declared (found : declaration? s = some (type, name, sizes)) :
    ∃ rest, s = type ++ rest ∧ Declared type rest name sizes := by
  induction s generalizing type with
  | nil => cases found
  | cons c rest ih =>
    rw [declaration?] at found
    split at found
    next here =>
      cases found
      obtain ⟨separates, declarator⟩ := Option.ite_none_right_eq_some.mp here
      refine ⟨rest, rfl, ⟨[], c, rfl, List.not_mem_nil, separates⟩, declarator, ?_⟩
      rintro lead more separator split - left
      simp [List.singleton_eq_append_iff, left] at split
    next longer =>
      split at found
      next => cases found
      next inside =>
        obtain ⟨⟨later, found⟩, again, pair⟩ := Option.map_eq_some_iff.mp found
        cases pair
        obtain ⟨tail, rfl, separated, declarator, shortest⟩ := ih again
        obtain ⟨front, separator, rfl, oneLine, separates⟩ := separated
        refine ⟨tail, rfl, ⟨c :: front, separator, rfl, ?_, separates⟩, declarator, ?_⟩
        · simpa using ⟨Ne.symm inside, oneLine⟩
        · rintro lead more between split separates left
          obtain ⟨rfl, same⟩ | ⟨lead, rfl, behind⟩ := List.cons_eq_append_iff.mp split
          · cases same
            rwa [if_pos separates] at longer
          · exact shortest lead more between behind separates left

end CHeader.Parameter
