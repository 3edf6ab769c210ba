import CHeader.Proofs.Parameter.Written

/-!
# Function pointers read back

A function pointer is written out with one space in front of its closing part and none inside. What
that part differs in from the text that was read stands behind its first parenthesis, and no shorter
type can be read over that parenthesis. So the type that is returned is the shortest one again.
-/
namespace CHeader.Parameter

open Text

/-! ## Two closing parts -/

/-- Two texts that are the same up to a parenthesis, with blank space of their own before it. -/
inductive Forked (t u : Text) : Text → Text → Prop
  | fork (gap other : Gap) : Forked t u (gap.text ++ '(' :: t) (other.text ++ '(' :: u)
  | same {s r : Text} (c : Char) (rest : Forked t u s r) : Forked t u (c :: s) (c :: r)

namespace Forked

variable {t u s r rest name : Text}

theorem prepend (lead : Text) (forked : Forked t u s r) : Forked t u (lead ++ s) (lead ++ r) := by
  induction lead with
  | nil => exact forked
  | cons c lead ih => exact .same c ih

/-- A sign at the front stands in both texts, or it is the parenthesis itself. -/
theorem sign {mark : Char} (forked : Forked t u s r) (visible : isSpace mark = false)
    (leads : dropLeading? [mark] (trimStart s) = some rest) :
    ∃ other, dropLeading? [mark] (trimStart r) = some other ∧
      (Forked t u rest other ∨ mark = '(' ∧ rest = t ∧ other = u) := by
  induction forked with
  | fork gap other =>
    rw [trimStart_append_of_blank gap.blank, trimStart_cons (by decide), dropLeading?_eq_some] at leads
    cases leads
    exact ⟨u, by rw [trimStart_append_of_blank other.blank, dropLeading?_trimStart (by decide)],
      Or.inr ⟨rfl, rfl, rfl⟩⟩
  | same c later ih =>
    by_cases space : isSpace c = true
    · have passed (text : Text) : trimStart (c :: text) = trimStart text :=
        List.dropWhile_cons_of_pos space
      rw [passed] at leads ⊢
      exact ih leads
    · have stays (text : Text) : trimStart (c :: text) = c :: text :=
        trimStart_cons (by simpa using space) text
      rw [stays, dropLeading?_eq_some] at leads
      cases leads
      exact ⟨_, by rw [stays, dropLeading?_eq_some]; rfl, Or.inl later⟩

theorem trimStart (forked : Forked t u s r) : Forked t u (trimStart s) (Text.trimStart r) := by
  induction forked with
  | fork gap other =>
    rw [trimStart_append_of_blank gap.blank, trimStart_append_of_blank other.blank,
      trimStart_cons (by decide), trimStart_cons (by decide)]
    exact .fork ⟨[], by simp⟩ ⟨[], by simp⟩
  | same c later ih =>
    by_cases space : isSpace c = true
    · rwa [Text.trimStart, Text.trimStart, List.dropWhile_cons_of_pos space,
        List.dropWhile_cons_of_pos space]
    · rw [trimStart_cons (by simpa using space), trimStart_cons (by simpa using space)]
      exact .same c later

/-- A run of word characters stops at the parenthesis, or at blank space before it. -/
theorem while_word (forked : Forked t u s r) :
    s.takeWhile isWord = r.takeWhile isWord ∧
      Forked t u (s.dropWhile isWord) (r.dropWhile isWord) := by
  induction forked with
  | fork gap other =>
    have stops (gap : Gap) (text : Text) :
        ∀ c ∈ (gap.text ++ '(' :: text).head?, isWord c = false := by
      obtain ⟨gap, blank⟩ := gap
      cases gap with
      | nil => simp; decide
      | cons d gap => simpa using isWord_of_isSpace (blank d List.mem_cons_self)
    have one := takeWhile_append_stop (s := []) (by simp) (stops gap t)
    have two := takeWhile_append_stop (s := []) (by simp) (stops other u)
    rw [List.nil_append] at one two
    rw [one.1, one.2, two.1, two.2]
    exact ⟨rfl, .fork gap other⟩
  | same c later ih =>
    by_cases inside : isWord c = true
    · simpa [inside] using ih
    · simpa [inside] using Forked.same c later

/-- A word does not reach over the parenthesis. -/
theorem word (forked : Forked t u s r) (found : word? s = some (name, rest)) :
    ∃ other, word? r = some (name, other) ∧ Forked t u rest other := by
  obtain ⟨same, left⟩ := forked.while_word
  rw [word?, Option.ite_none_left_eq_some] at found
  obtain ⟨filled, found⟩ := found
  cases found
  refine ⟨_, ?_, left⟩
  rw [word?, ← same, if_neg filled]

/-- What stands behind the parenthesis is never passed. -/
theorem suffix (forked : Forked t u s r) : u <:+ r := by
  induction forked with
  | fork gap other => exact (List.suffix_cons '(' u).trans (List.suffix_append _ _)
  | same c later ih => exact ih.trans (List.suffix_cons c _)

end Forked

/-! ## Openings -/

/-- The text begins with `(*name)(`, and the rest is what follows. -/
def Opening (s name rest : Text) : Prop :=
  ∃ s₁ s₂ s₃ s₄, dropLeading? ['('] (trimStart s) = some s₁ ∧
    dropLeading? ['*'] (trimStart s₁) = some s₂ ∧ word? (trimStart s₂) = some (name, s₃) ∧
    dropLeading? [')'] (trimStart s₃) = some s₄ ∧ dropLeading? ['('] (trimStart s₄) = some rest

variable {s t u returns name arguments rest lead more : Text}

theorem pointerTail?_eq_some_iff :
    pointerTail? s = some (name, arguments) ↔
      '\n' ∉ arguments ∧ Opening s name (arguments ++ [')']) := by
  simp only [pointerTail?, Opening, Option.bind_eq_bind, Option.bind_eq_some_iff]
  constructor
  · rintro ⟨s₁, first, s₂, star, ⟨word, s₃⟩, named, s₄, closing, s₅, second, inside, last, found⟩
    rw [Option.ite_none_left_eq_some] at found
    obtain ⟨oneLine, found⟩ := found
    cases found
    rw [eq_concat_of_dropLast? last] at second
    exact ⟨oneLine, s₁, s₂, s₃, s₄, first, star, named, closing, second⟩
  · rintro ⟨oneLine, s₁, s₂, s₃, s₄, first, star, named, closing, second⟩
    exact ⟨s₁, first, s₂, star, (name, s₃), named, s₄, closing, _, second, arguments,
      dropLast?_concat ')' arguments, by rw [if_neg oneLine]⟩

theorem suffix_of_sign {mark : Char} (leads : dropLeading? [mark] (trimStart s) = some rest) :
    rest <:+ s := by
  have past := List.dropWhile_suffix (l := s) isSpace
  rw [← trimStart, dropLeading?_eq_some.mp leads] at past
  exact (List.suffix_append [mark] rest).trans past

theorem Opening.suffix (opening : Opening s name rest) : rest <:+ s := by
  obtain ⟨s₁, s₂, s₃, s₄, first, star, named, closing, second⟩ := opening
  have past : s₃ <:+ s₂ := by
    have behind : s₃ <:+ trimStart s₂ := ⟨name, (word?_append named).1⟩
    exact behind.trans (List.dropWhile_suffix isSpace)
  exact (suffix_of_sign second).trans <| (suffix_of_sign closing).trans <|
    past.trans <| (suffix_of_sign star).trans (suffix_of_sign first)

theorem pointerTail?_getLast? (closes : pointerTail? s = some (name, arguments)) :
    s.getLast? = some ')' := by
  obtain ⟨front, rfl⟩ := (pointerTail?_eq_some_iff.mp closes).2.suffix
  simp

/-- Any text that closes at the end will do for the arguments, if it is one line. -/
theorem Opening.pointerTail? (opening : Opening s name rest) (filled : rest ≠ [])
    (closed : s.getLast? = some ')') (oneLine : '\n' ∉ s) :
    ∃ arguments, Parameter.pointerTail? s = some (name, arguments) := by
  obtain ⟨front, rfl⟩ := opening.suffix
  rw [List.getLast?_append_of_ne_nil front filled] at closed
  obtain ⟨arguments, rfl⟩ := List.getLast?_eq_some_iff.mp closed
  refine ⟨arguments, pointerTail?_eq_some_iff.mpr ⟨fun member => oneLine ?_, opening⟩⟩
  simp [member]

/-- An opening that begins before the parenthesis stands in both texts. The parenthesis may be the
last sign of it, but no more of what differs is read. -/
theorem Opening.fork (opening : Opening (lead ++ s) name rest) (solid : trimStart lead ≠ [])
    (forked : Forked t u s more) :
    ∃ other, Opening (lead ++ more) name other ∧ (Forked t u rest other ∨ other = u) := by
  obtain ⟨s₁, s₂, s₃, s₄, first, star, named, closing, second⟩ := opening
  -- the first sign stands in the part that the texts have in common
  obtain ⟨c, front, left⟩ := List.exists_cons_of_ne_nil solid
  have passed (text : Text) : trimStart (lead ++ text) = c :: (front ++ text) := by
    rw [trimStart, List.dropWhile_append, ← trimStart, left]
    rfl
  rw [passed, dropLeading?_eq_some] at first
  cases first
  obtain ⟨r₂, otherStar, fork₂⟩ := (forked.prepend front).sign (by decide) star
  have fork₂ := fork₂.resolve_right (by simp)
  obtain ⟨r₃, otherNamed, fork₃⟩ := fork₂.trimStart.word named
  obtain ⟨r₄, otherClosing, fork₄⟩ := fork₃.sign (by decide) closing
  have fork₄ := fork₄.resolve_right (by simp)
  obtain ⟨other, otherSecond, fork⟩ := fork₄.sign (by decide) second
  refine ⟨other, ⟨_, r₂, r₃, r₄, ?_, otherStar, otherNamed, otherClosing, otherSecond⟩,
    fork.imp_right fun last => last.2.2⟩
  rw [passed, dropLeading?_eq_some]
  rfl

theorem pointerTail?_cons {c : Char} (space : isSpace c = true) (s : Text) :
    pointerTail? (c :: s) = pointerTail? s := by
  have passed : trimStart (c :: s) = trimStart s := List.dropWhile_cons_of_pos space
  rw [pointerTail?, passed, ← pointerTail?]

/-! ## Returned types -/

/-- Blank space in front of the closing part belongs to that part. -/
theorem Returned.ends {tail : Text} (returned : Returned returns tail name arguments)
    (starts : Starts (returns ++ tail)) : Ends returns := by
  obtain ⟨front, last, rfl⟩ := List.eq_nil_or_concat returns |>.resolve_left returned.filled
  rw [List.concat_eq_append] at *
  cases space : isSpace last with
  | false => exact ends_concat space front
  | true =>
    exfalso
    by_cases single : front = []
    · subst single
      obtain ⟨c, first, solid⟩ := starts
      cases Option.some.inj (Option.mem_def.mp first)
      rw [space] at solid
      cases solid
    · have none := returned.shortest front [last] rfl single (List.cons_ne_nil _ _)
      rw [List.singleton_append, pointerTail?_cons space, returned.closes] at none
      cases none

/-- Two closing parts go on with a parenthesis each. -/
theorem exists_forked {tail : Text} (closes : pointerTail? tail = some (name, arguments))
    (written : Text) : ∃ t u, u ≠ [] ∧ Forked t u (pointerEnd name written) tail := by
  obtain ⟨-, s₁, _, _, _, first, star, -⟩ := pointerTail?_eq_some_iff.mp closes
  obtain ⟨gap, whole⟩ := exists_gap_trimStart tail
  rw [dropLeading?_eq_some.mp first] at whole
  refine ⟨'*' :: (name ++ ')' :: '(' :: (written ++ [')'])), s₁, ?_, ?_⟩
  · rintro rfl
    cases star
  · rw [whole]
    exact .fork ⟨[' '], by decide⟩ gap

/-- Where a function pointer is written out, the type that it returns is the shortest one again: an
opening within that type would have been found in front of the parenthesis before. -/
theorem Returned.rewritten {tail : Text} (returned : Returned returns tail name arguments)
    (starts : Starts (returns ++ tail)) (oneLine : '\n' ∉ returns ++ tail) :
    Returned returns (pointerEnd name (trim arguments)) name (trim arguments) := by
  obtain ⟨argumentsLine, _, _, _, _, -, -, named, -⟩ := pointerTail?_eq_some_iff.mp returned.closes
  obtain ⟨word, rfl, -⟩ := exists_word named
  constructor
  case filled => exact returned.filled
  case oneLine => exact returned.oneLine
  case closes =>
    exact pointerTail?_pointerEnd word fun member => argumentsLine ((infix_trim _).subset member)
  case shortest =>
    rintro lead more split shorter left
    rw [Option.eq_none_iff_forall_ne_some]
    rintro ⟨other, inside⟩ found
    -- what opens in the text that is written out opens in the one that was read as well
    obtain ⟨t, u, filled, forked⟩ := exists_forked returned.closes (trim arguments)
    have solid : Ends more := by
      obtain ⟨c, last, visible⟩ := returned.ends starts
      rw [split, List.getLast?_append_of_ne_nil lead left] at last
      exact ⟨c, last, visible⟩
    obtain ⟨after, opening, reached⟩ :=
      (pointerTail?_eq_some_iff.mp found).2.fork solid.trimStart_ne_nil forked
    have afterFilled : after ≠ [] := by
      rintro rfl
      rcases reached with within | same
      · exact filled (List.suffix_nil.mp within.suffix)
      · exact filled same.symm
    -- and there it closes at the end, so that a shorter type would have been read
    have closed : (more ++ tail).getLast? = some ')' := by
      rw [List.getLast?_append, pointerTail?_getLast? returned.closes]
      rfl
    have behind : more ++ tail <:+ returns ++ tail := ⟨lead, by rw [split, List.append_assoc]⟩
    obtain ⟨others, again⟩ := opening.pointerTail? afterFilled closed fun member =>
      oneLine (behind.subset member)
    rw [returned.shortest lead more split shorter left] at again
    cases again

/-- The type of a function pointer is read as that function pointer. -/
theorem parse_pointerType (oneLine : '\n' ∉ s) (trimmed : trim s = s)
    (found : functionPointer? s = some (returns, name, arguments)) :
    parse (pointerType returns name arguments) =
      ⟨pointerType returns name arguments, some name⟩ := by
  obtain ⟨tail, rfl, returned⟩ := exists_returned found
  have starts : Starts (returns ++ tail) := starts_of_trim (by simp [returned.filled]) trimmed
  have again := (returned.rewritten starts oneLine).functionPointer?
  have written : trim (pointerType returns name arguments) = pointerType returns name arguments := by
    apply trim_eq_self
    · rw [pointerType_eq]
      exact (starts.of_append returned.filled).append _
    · rw [pointerType]
      exact ends_concat (by decide) _
  rw [parse, written, pointerType_eq, again]
  simp only [pointerType_eq, trim_trim]

end CHeader.Parameter
