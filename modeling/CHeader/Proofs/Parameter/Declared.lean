import CHeader.Proofs.Parameter.Shortest
import CHeader.Proofs.Parameter.Split

/-!
# Types with a name

A declaration is a type, a name and array dimensions. The type is read up to the last blank or star,
since only that one has nothing but the name and its dimensions after it.
-/
namespace CHeader.Parameter

open Text

/-! ## Types -/

/-- A character of a type: of a word, or a space or a star. -/
def IsTypeChar (c : Char) : Prop := isWord c = true ∨ c = ' ' ∨ c = '*'

theorem IsTypeChar.ne {c sign : Char} (char : IsTypeChar c)
    (apart : isWord sign = false ∧ sign ≠ ' ' ∧ sign ≠ '*') : c ≠ sign := by
  rintro rfl
  rcases char with word | rfl | rfl
  · exact ne_of_isWord word apart.1 rfl
  · exact apart.2.1 rfl
  · exact apart.2.2 rfl

/-- The other signs do not occur in a type. -/
theorem not_mem_of_typeChars {s : Text} (chars : ∀ c ∈ s, IsTypeChar c) {sign : Char}
    (apart : isWord sign = false ∧ sign ≠ ' ' ∧ sign ≠ '*') : sign ∉ s :=
  fun member => (chars sign member).ne apart rfl

theorem IsTypeChar.isSpace {c : Char} (char : IsTypeChar c) (solid : c ≠ ' ') :
    Text.isSpace c = false := by
  rcases char with word | rfl | rfl
  · exact isSpace_of_isWord word
  · exact absurd rfl solid
  · decide

/-- Stars, with the number of spaces before each of them. -/
def starsText (stars : List Nat) : Text :=
  stars.flatMap fun spaces => List.replicate spaces ' ' ++ ['*']

theorem starsText_chars {stars : List Nat} : ∀ c ∈ starsText stars, IsTypeChar c := by
  intro c member
  obtain ⟨spaces, -, place⟩ := List.mem_flatMap.mp member
  rcases List.mem_append.mp place with space | star
  · exact Or.inr (Or.inl (List.eq_of_mem_replicate space))
  · exact Or.inr (Or.inr (List.mem_singleton.mp star))

theorem starsText_concat {stars : List Nat} (some_star : stars ≠ []) :
    ∃ before, starsText stars = before ++ ['*'] := by
  obtain ⟨before, last, rfl⟩ := List.eq_nil_or_concat stars |>.resolve_left some_star
  exact ⟨starsText before ++ List.replicate last ' ', by simp [starsText]⟩

/-- A type as it is written: words, and stars after them. -/
structure TypeText where
  words : List Word
  filled : words ≠ []
  stars : List Nat

namespace TypeText

def text (type : TypeText) : Text := phrase type.words ++ starsText type.stars

theorem chars (type : TypeText) : ∀ c ∈ type.text, IsTypeChar c := by
  intro c member
  rcases List.mem_append.mp member with word | star
  · exact (mem_phrase word).imp_right Or.inl
  · exact starsText_chars c star

theorem starts (type : TypeText) : Starts type.text := (phrase_starts type.filled).append _

theorem ends (type : TypeText) : Ends type.text := by
  by_cases plain : type.stars = []
  · rw [text, plain]
    simpa [starsText] using phrase_ends type.filled
  · obtain ⟨before, whole⟩ := starsText_concat plain
    rw [text, whole]
    exact (ends_concat (by decide) before).append _

end TypeText

/-- Without the spaces and stars at its end, a type is its words. -/
theorem dropEndWhile_phrase {words : List Word} (some_word : words ≠ []) {pointer : Text}
    (stars : ∀ c ∈ pointer, c = ' ' ∨ c = '*') :
    dropEndWhile (fun c => c == ' ' || c == '*') (phrase words ++ pointer) = phrase words := by
  obtain ⟨c, last, solid⟩ := phrase_ends some_word
  obtain ⟨before, whole⟩ := List.getLast?_eq_some_iff.mp last
  have kept : (c == ' ' || c == '*') = false := by
    rcases mem_phrase (List.mem_of_getLast? last) with word | rfl
    · simp [ne_of_isWord word (show isWord ' ' = false by decide),
        ne_of_isWord word (show isWord '*' = false by decide)]
    · cases solid
  rw [dropEndWhile_append _ (by simpa using stars), whole]
  exact dropEndWhile_concat kept before

/-! ## Dimensions -/

/-- What stands between the brackets of a dimension: digits or a name, or nothing. -/
structure Size where
  text : Text
  chars : ∀ c ∈ text, isWord c = true

def sizesText (sizes : List Size) : Text := sizes.flatMap fun size => '[' :: size.text ++ [']']

theorem mem_sizesText {sizes : List Size} {c : Char} (member : c ∈ sizesText sizes) :
    isWord c = true ∨ c = '[' ∨ c = ']' := by
  obtain ⟨size, -, place⟩ := List.mem_flatMap.mp member
  simp only [List.mem_append, List.mem_cons, List.not_mem_nil, or_false] at place
  rcases place with (opening | inside) | closing
  · exact Or.inr (Or.inl opening)
  · exact Or.inl (size.chars c inside)
  · exact Or.inr (Or.inr closing)

/-- Dimensions run from an opening bracket to a closing one. -/
theorem sizesText_cons (size : Size) (sizes : List Size) :
    ∃ inside, sizesText (size :: sizes) = '[' :: (inside ++ [']']) := by
  induction sizes generalizing size with
  | nil => exact ⟨size.text, by simp [sizesText]⟩
  | cons next sizes ih =>
    -- the brackets in between belong to the inside
    obtain ⟨inside, whole⟩ := ih next
    refine ⟨size.text ++ ']' :: '[' :: inside, ?_⟩
    have split : sizesText (size :: next :: sizes) =
        '[' :: size.text ++ [']'] ++ sizesText (next :: sizes) := by simp [sizesText]
    rw [split, whole]
    simp

theorem sizesText_stops (sizes : List Size) : ∀ c ∈ (sizesText sizes).head?, isWord c = false := by
  intro c first
  cases sizes with
  | nil => cases first
  | cons size sizes =>
    cases Option.some.inj (Option.mem_def.mp first)
    decide

/-- A dimension runs to the first closing bracket and keeps what is not blank. -/
theorem dimensions?_inside {inside : Text} (unclosed : ']' ∉ inside) (rest : Text) :
    dimensions? true (inside ++ ']' :: rest) =
      (dimensions? false rest).map fun others => inside.filter (!isSpace ·) ++ ']' :: others := by
  induction inside with
  | nil => simp [dimensions?]
  | cons c inside ih =>
    simp only [List.mem_cons, not_or] at unclosed
    rw [List.cons_append, dimensions?, if_neg (Ne.symm unclosed.1), ih unclosed.2, Option.map_map]
    cases blank : isSpace c with
    | true => simp [blank]
    | false => simp [blank, Function.comp_def]

theorem dimensions?_sizesText (sizes : List Size) :
    dimensions? false (sizesText sizes) = some (sizesText sizes) := by
  induction sizes with
  | nil => rfl
  | cons size sizes ih =>
    have whole : sizesText (size :: sizes) = '[' :: (size.text ++ ']' :: sizesText sizes) := by
      simp [sizesText]
    have unclosed : ']' ∉ size.text := fun member => ne_of_isWord (size.chars _ member) (by decide) rfl
    have solid : size.text.filter (!isSpace ·) = size.text :=
      List.filter_eq_self.mpr fun c member => by simp [isSpace_of_isWord (size.chars c member)]
    rw [whole, dimensions?, if_pos rfl, dimensions?_inside unclosed, solid, ih]
    rfl

/-! ## Types with a name -/

/-- No dimension stands behind something else that is not blank. -/
theorem dimensions?_eq_none {lead : Text} (unopened : '[' ∉ lead)
    (solid : ∃ c ∈ lead, isSpace c = false) (tail : Text) :
    dimensions? false (lead ++ tail) = none := by
  induction lead with
  | nil =>
    obtain ⟨c, member, -⟩ := solid
    cases member
  | cons c lead ih =>
    simp only [List.mem_cons, not_or] at unopened
    rw [List.cons_append, dimensions?, if_neg (Ne.symm unopened.1)]
    by_cases space : isSpace c = true
    · -- blank space before dimensions is passed over
      obtain ⟨d, member, visible⟩ := solid
      have later : d ∈ lead := (List.mem_cons.mp member).resolve_left fun same => by
        rw [same, space] at visible
        cases visible
      rw [if_pos space, ih unopened.2 ⟨d, later, visible⟩]
    · rw [if_neg space]

/-- After a first word that is followed by more than blank space there is no declarator. -/
theorem declarator?_eq_none {lead : Text} (unopened : '[' ∉ lead)
    (solid : ∃ c ∈ lead.dropWhile isWord, isSpace c = false) (tail : Text) :
    declarator? (lead ++ tail) = none := by
  have rest : (lead ++ tail).dropWhile isWord = lead.dropWhile isWord ++ tail := by
    obtain ⟨c, member, -⟩ := solid
    rw [List.dropWhile_append, if_neg (by simpa using List.ne_nil_of_mem member)]
  have none : dimensions? false (lead.dropWhile isWord ++ tail) = none :=
    dimensions?_eq_none (fun member => unopened (List.dropWhile_subset _ member)) solid tail
  rw [declarator?, word?]
  split
  · rfl
  · -- the first word is read, but no dimensions follow it
    simp only [rest, Option.bind_eq_bind, Option.bind_some, none, Option.bind_none]

theorem declarator?_word (name : Word) (sizes : List Size) :
    declarator? (name.text ++ sizesText sizes) = some (name.text, sizesText sizes) := by
  simp only [declarator?, name.word?_append (sizesText_stops sizes), Option.bind_eq_bind,
    Option.bind_some, dimensions?_sizesText, Option.pure_def]

/-- A text in front of a name: a blank or a star separates the two, and no dimension begins in it. -/
structure Front (before : Text) : Prop where
  unopened : '[' ∉ before
  separates : ∃ c ∈ before.getLast?, (isSpace c || c = '*') = true

theorem Front.declarator?_eq_none {before : Text} (front : Front before) (name : Word) (tail : Text) :
    declarator? (before ++ (name.text ++ tail)) = none := by
  obtain ⟨unopened, c, last, separates⟩ := front
  obtain ⟨front, rfl⟩ := List.getLast?_eq_some_iff.mp last
  have sign : isWord c = false := by
    rcases (Bool.or_eq_true _ _).mp separates with blank | star
    · exact isWord_of_isSpace blank
    · rw [of_decide_eq_true star]
      decide
  -- the first word ends before the last character of the front, and the name comes after that
  obtain ⟨-, rest⟩ := while_append (c := c) (s := front ++ [c]) (by simp) sign name.text
  obtain ⟨first, others, start⟩ := List.exists_cons_of_ne_nil name.filled
  have inside : first ∈ name.text := start ▸ List.mem_cons_self
  rw [← List.append_assoc]
  refine Parameter.declarator?_eq_none ?_ ⟨first, ?_, isSpace_of_isWord (name.chars first inside)⟩ tail
  · rw [List.mem_append, not_or]
    exact ⟨unopened, name.not_mem (by decide)⟩
  · rw [rest]
    exact List.mem_append_right _ inside

theorem Front.behind {front more : Text} (whole : Front (front ++ more)) (left : more ≠ []) :
    Front more := by
  obtain ⟨unopened, c, last, separates⟩ := whole
  rw [List.getLast?_append_of_ne_nil front left] at last
  exact ⟨fun member => unopened (List.mem_append_right front member), c, last, separates⟩

/-- The shortest type ends right in front of the name. -/
theorem Front.declaration? {before rest sizes : Text} (front : Front before)
    (oneLine : '\n' ∉ before) (name : Word)
    (declarator : declarator? (name.text ++ rest) = some (name.text, sizes)) :
    declaration? (before ++ (name.text ++ rest)) = some (before, name.text, sizes) := by
  apply Declared.declaration?
  constructor
  case separated =>
    obtain ⟨-, c, last, separates⟩ := front
    obtain ⟨lead, rfl⟩ := List.getLast?_eq_some_iff.mp last
    exact ⟨lead, c, rfl, fun member => oneLine (List.mem_append_left [c] member), separates⟩
  case declarator => exact declarator
  case shortest =>
    rintro lead more separator rfl - left
    rw [List.append_cons] at front
    exact (front.behind left).declarator?_eq_none name _

/-- The part before a name is its type, with what separates the two. -/
structure Lead (before : Text) : Prop where
  chars : ∀ c ∈ before, IsTypeChar c
  separates : ∃ c ∈ before.getLast?, c = ' ' ∨ c = '*'

theorem Lead.concat {s : Text} {c : Char} (chars : ∀ c ∈ s, IsTypeChar c)
    (separates : c = ' ' ∨ c = '*') : Lead (s ++ [c]) := by
  refine ⟨fun d member => ?_, c, by simp, separates⟩
  rcases List.mem_append.mp member with before | last
  · exact chars d before
  · exact List.mem_singleton.mp last ▸ Or.inr separates

theorem Lead.front {before : Text} (lead : Lead before) : Front before := by
  obtain ⟨chars, c, last, separates⟩ := lead
  refine ⟨not_mem_of_typeChars chars (by decide), c, last, ?_⟩
  rcases separates with rfl | rfl <;> decide

theorem declaration?_append {before : Text} (lead : Lead before) (name : Word)
    (sizes : List Size) : declaration? (before ++ (name.text ++ sizesText sizes)) =
      some (before, name.text, sizesText sizes) :=
  lead.front.declaration? (not_mem_of_typeChars lead.chars (by decide)) name
    (declarator?_word name sizes)

end CHeader.Parameter
