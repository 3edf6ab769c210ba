import CHeader.Json.Parse
import CHeader.Proofs.Json.Escape

/-!
# Where strings end

A string goes from its opening quotation mark to the first mark that no escape holds. Reading takes
exactly the texts of that form, and stops there whatever follows; no string is refused for a numeral.
-/
namespace CHeader.JsonValue

open Text

/-- A string from behind its opening quotation mark up to the closing one. -/
inductive Body : Text → Prop
  | close : Body ['"']
  | plain {c : Char} {s : Text} (noMark : c ≠ '"') (noBackslash : c ≠ '\\') (visible : 32 ≤ c.toNat)
      (body : Body s) : Body (c :: s)
  | letter {letter c : Char} {s : Text} (escape : simpleEscape? letter = some c) (body : Body s) :
      Body ('\\' :: letter :: s)
  | unit {a b c d : Char} {s : Text} (digits : ∀ digit ∈ [a, b, c, d], (hexDigit? digit).isSome)
      (body : Body s) : Body ('\\' :: 'u' :: a :: b :: c :: d :: s)

variable {c : Char} {s rest : Text} {opened fuel : Nat}

theorem Body.ne_nil (body : Body s) : s ≠ [] := by
  cases body <;> exact List.cons_ne_nil _ _

theorem exists_unit {a b c d : Char} (digits : ∀ digit ∈ [a, b, c, d], (hexDigit? digit).isSome) :
    ∃ unit, ∀ rest, unit? (a :: b :: c :: d :: rest) = some (unit, rest) := by
  simp only [List.forall_mem_cons, Option.isSome_iff_exists] at digits
  obtain ⟨⟨w, first⟩, ⟨x, second⟩, ⟨y, third⟩, ⟨z, fourth⟩, -⟩ := digits
  exact ⟨((w * 16 + x) * 16 + y) * 16 + z, fun rest => by
    simp only [unit?, first, second, third, fourth, Option.bind_eq_bind, Option.bind_some]
    rfl⟩

theorem unit?_eq_some {unit : Nat} (found : unit? s = some (unit, rest)) :
    ∃ a b c d, s = a :: b :: c :: d :: rest ∧
      ∀ digit ∈ [a, b, c, d], (hexDigit? digit).isSome := by
  unfold unit? at found
  split at found
  next a b c d later =>
    simp only [Option.bind_eq_bind, Option.bind_eq_some_iff, Option.pure_def,
      Option.some.injEq, Prod.mk.injEq] at found
    obtain ⟨w, first, x, second, y, third, z, fourth, -, rfl⟩ := found
    exact ⟨a, b, c, d, rfl, by simp [first, second, third, fourth]⟩
  next => cases found

/-- An escape takes one unit or two, each of which could stand alone. -/
theorem unicodeEscape?_eq_ok {digits : Text} (read : unicodeEscape? digits = .ok (c, rest)) :
    ∃ taken, digits = taken ++ rest ∧ ∀ body, Body body → Body ('\\' :: 'u' :: (taken ++ body)) := by
  unfold unicodeEscape? at read
  dsimp only at read
  split at read
  · cases read
  split at read
  · cases read
  next unit after found =>
    obtain ⟨a, b, c, d, rfl, hex⟩ := unit?_eq_some found
    split at read
    next second =>
      split at read
      · cases read
      next low later next =>
        obtain ⟨e, f, g, h, rfl, others⟩ := unit?_eq_some next
        split at read
        · obtain ⟨-, rfl⟩ := Prod.mk.inj (Except.ok.inj read)
          exact ⟨[a, b, c, d, '\\', 'u', e, f, g, h], rfl,
            fun body rest => .unit hex (.unit others rest)⟩
        · obtain ⟨-, rfl⟩ := Prod.mk.inj (Except.ok.inj read)
          exact ⟨[a, b, c, d], rfl, fun body rest => .unit hex rest⟩
    next =>
      obtain ⟨-, rfl⟩ := Prod.mk.inj (Except.ok.inj read)
      exact ⟨[a, b, c, d], rfl, fun body rest => .unit hex rest⟩

/-- Where reading goes on, whatever was read, or why it stops. -/
def left {σ α : Type} (step : Except σ (α × Text)) : Except σ Text := step.map Prod.snd

theorem left_map {σ α β : Type} {f : α × Text → β × Text} (keeps : ∀ pair, (f pair).2 = pair.2)
    (step : Except σ (α × Text)) : left (step.map f) = left step := by
  cases step with
  | error stop => rfl
  | ok pair => exact congrArg Except.ok (keeps pair)

theorem left_andThen (c : Char) (step : Step Text) : left (andThen c step) = left step := by
  rw [andThen, left_map]
  rintro ⟨s, rest⟩
  rfl

theorem body_of_stringRest (read : left (stringRest opened fuel s) = .ok rest) :
    ∃ body, Body body ∧ s = body ++ rest := by
  induction fuel generalizing s with
  | zero => cases read
  | succ fuel ih =>
    unfold stringRest at read
    split at read
    · cases read
    · cases read
      exact ⟨['"'], .close, rfl⟩
    · cases read
    next digits =>
      split at read
      · cases read
      next c later escape =>
        obtain ⟨taken, rfl, units⟩ := unicodeEscape?_eq_ok escape
        obtain ⟨body, isBody, rfl⟩ := ih ((left_andThen c _).symm.trans read)
        exact ⟨'\\' :: 'u' :: (taken ++ body), units body isBody, by simp⟩
    next escape later _ =>
      split at read
      · cases read
      next c found =>
        obtain ⟨body, isBody, rfl⟩ := ih ((left_andThen c _).symm.trans read)
        exact ⟨'\\' :: escape :: body, .letter found isBody, rfl⟩
    next c later noMark noBackslash noUnit noLetter =>
      split at read
      · cases read
      next visible =>
        obtain ⟨body, isBody, rfl⟩ := ih ((left_andThen c _).symm.trans read)
        refine ⟨c :: body, .plain noMark ?_ (Nat.not_lt.mp visible) isBody, rfl⟩
        -- no backslash is left that would end the text or start an escape
        rintro rfl
        obtain ⟨letter, others, same⟩ := List.exists_cons_of_ne_nil isBody.ne_nil
        exact noLetter letter (others ++ rest) rfl (by rw [same, List.cons_append])

/-- What is left behind a unit is the rest of the string, or what is left of it behind the second
unit of a pair. -/
theorem unicodeEscape?_body {a b d e : Char}
    (digits : ∀ digit ∈ [a, b, d, e], (hexDigit? digit).isSome) (body : Body s) (rest : Text) :
    ∃ c later, unicodeEscape? (a :: b :: d :: e :: (s ++ rest)) = .ok (c, later ++ rest) ∧
      Body later ∧ later.length ≤ s.length := by
  obtain ⟨unit, found⟩ := exists_unit digits
  have filled := List.length_pos_iff.mpr body.ne_nil
  unfold unicodeEscape?
  dsimp only
  rw [if_neg (by simp only [List.length_cons, List.length_append]; omega), found]
  dsimp only
  split
  next second _ pair =>
    cases body with
    | close => cases pair
    | plain _ noBackslash => exact absurd (List.cons.inj pair).1 noBackslash
    | letter escape =>
      obtain ⟨rfl, -⟩ := List.cons.inj (List.cons.inj pair).2
      cases escape
    | @unit _ _ _ _ later others body =>
      obtain ⟨-, rfl⟩ := List.cons.inj (List.cons.inj pair).2
      obtain ⟨low, next⟩ := exists_unit others
      simp only [List.append_eq, List.cons_append, next]
      split
      · exact ⟨_, later, rfl, body, by simp only [List.length_cons]; omega⟩
      · exact ⟨_, _, rfl, .unit others body, Nat.le_refl _⟩
  next => exact ⟨_, s, rfl, body, Nat.le_refl _⟩

theorem stringRest_body (body : Body s) (enough : s.length ≤ fuel) (rest : Text) :
    left (stringRest opened fuel (s ++ rest)) = .ok rest := by
  induction fuel generalizing s with
  | zero => exact absurd (List.length_pos_iff.mpr body.ne_nil) (Nat.not_lt.mpr enough)
  | succ fuel ih =>
    cases body with
    | close => rfl
    | plain noMark noBackslash visible body =>
      rw [List.cons_append, stringRest_plain noMark noBackslash (Nat.not_lt.mpr visible),
        left_andThen]
      exact ih body (Nat.le_of_succ_le_succ enough)
    | letter escape body =>
      rw [List.cons_append, List.cons_append, stringRest_letter escape, left_andThen]
      simp only [List.length_cons] at enough
      exact ih body (by omega)
    | unit digits body =>
      obtain ⟨c, later, escape, body, shorter⟩ := unicodeEscape?_body digits body rest
      simp only [List.cons_append]
      rw [stringRest_unit escape, left_andThen]
      simp only [List.length_cons] at enough
      exact ih body (by omega)

theorem stringAfterQuote_body (body : Body s) (rest : Text) :
    left (stringAfterQuote (s ++ rest)) = .ok rest :=
  stringRest_body body (by rw [List.length_append]; omega) rest

theorem unicodeEscape?_ne_numeral {digits : Text} {cause : NumeralError} :
    unicodeEscape? digits ≠ .error (.numeral cause) := by
  unfold unicodeEscape?
  dsimp only
  intro failed
  repeat' split at failed
  all_goals cases failed

/-- A string is never refused for a numeral. -/
theorem stringRest_ne_numeral {cause : NumeralError} :
    left (stringRest opened fuel s) ≠ .error (.numeral cause) := by
  intro failed
  induction fuel generalizing s with
  | zero => cases failed
  | succ fuel ih =>
    unfold stringRest at failed
    split at failed
    · cases failed
    · cases failed
    · cases failed
    · split at failed
      next escape =>
        cases failed
        exact unicodeEscape?_ne_numeral escape
      next c _ _ => exact ih ((left_andThen c _).symm.trans failed)
    · split at failed
      · cases failed
      next c _ => exact ih ((left_andThen c _).symm.trans failed)
    next c _ _ _ _ _ =>
      split at failed
      · cases failed
      · exact ih ((left_andThen c _).symm.trans failed)

end CHeader.JsonValue
