import CHeader.Proofs.Text.Pieces
import CHeader.Text.Scan
import Mathlib.Data.List.TakeWhile

/-!
# Words, blanks and trimmed texts

No character is both blank and part of a word. So a word ends where a blank or a sign follows it, and
trimming does nothing to a text that begins and ends with words or signs.
-/
namespace CHeader.Text

/-! ## Characters -/

/-- The characters of a text are looked at one by one, not all characters there are. -/
instance decidableForallMem {p : Char → Prop} [DecidablePred p] (s : Text) :
    Decidable (∀ c ∈ s, p c) :=
  List.decidableBAll p s

theorem isWord_of_isSpace {c : Char} (blank : isSpace c = true) : isWord c = false := by
  obtain ⟨⟨first, last⟩, range, inside⟩ := List.any_eq_true.mp blank
  simp only [Bool.and_eq_true, decide_eq_true_eq] at inside
  by_cases ascii : c.toNat < 128
  · -- the blanks of ASCII stand before the first sign
    have low : c.toNat ≤ 32 := by
      have ends : ∀ range ∈ spaceRanges, range.1 < 128 → range.2 ≤ 32 := by decide
      exact Nat.le_trans inside.2 (ends _ range (Nat.lt_of_le_of_lt inside.1 ascii))
    have codes : ∀ code ≤ 32, isWord (Char.ofNat code) = false := by decide
    rw [← Char.ofNat_toNat c]
    exact codes _ low
  · -- beyond ASCII both classes are ranges, and no two of them meet
    have apart : ∀ blank ∈ spaceRanges, ∀ word ∈ wordRanges,
        blank.2 < word.1 ∨ word.2 < blank.1 := by decide +kernel
    rw [isWord, if_neg ascii, ← Bool.not_eq_true]
    -- a character in both would put two ranges over each other
    intro member
    obtain ⟨word, wordRange, within⟩ := List.any_eq_true.mp member
    simp only [Bool.and_eq_true, decide_eq_true_eq] at within
    have := apart _ range _ wordRange
    dsimp only at this
    omega

theorem isSpace_of_isWord {c : Char} (word : isWord c = true) : isSpace c = false := by
  by_contra blank
  rw [isWord_of_isSpace (by simpa using blank)] at word
  cases word

theorem isWord_of_isDigit {c : Char} (digit : c.isDigit = true) : isWord c = true := by
  have bounds := Char.isDigit_iff_toNat.mp digit
  have ascii : c.toNat < 128 := Nat.lt_of_le_of_lt bounds.2 (by decide)
  simp [isWord, ascii, Char.isAlphanum, digit]

/-- Ten digits of each script follow each other. -/
theorem digitValue?_cases {c : Char} {value : Nat} (found : digitValue? c = some value) :
    value < 10 ∧ ∃ base ∈ '0'.toNat :: digitZeros, c.toNat = base + value := by
  rw [digitValue?] at found
  split at found
  next =>
    split at found
    next digit =>
      cases found
      have bounds := Char.isDigit_iff_toNat.mp digit
      have base : '0'.toNat = 48 := rfl
      have last : '9'.toNat = 57 := rfl
      exact ⟨by omega, '0'.toNat, List.mem_cons_self, by omega⟩
    next => cases found
  next =>
    obtain ⟨base, first, rfl⟩ := Option.map_eq_some_iff.mp found
    have inside := List.find?_some first
    simp only [Bool.and_eq_true, decide_eq_true_eq] at inside
    exact ⟨by omega, base, List.mem_cons_of_mem _ (List.mem_of_find?_eq_some first), by omega⟩

/-- No digit of any script is blank. -/
theorem isSpace_of_digit {c : Char} (digit : isDigit c = true) : isSpace c = false := by
  obtain ⟨value, found⟩ := Option.isSome_iff_exists.mp digit
  obtain ⟨small, base, listed, whole⟩ := digitValue?_cases found
  have apart : ∀ range ∈ spaceRanges, ∀ base ∈ '0'.toNat :: digitZeros,
      range.2 < base ∨ base + 10 ≤ range.1 := by decide
  rw [← Bool.not_eq_true]
  intro blank
  obtain ⟨range, member, within⟩ := List.any_eq_true.mp blank
  simp only [Bool.and_eq_true, decide_eq_true_eq] at within
  have := apart range member base listed
  omega

/-- What ends a line is blank. -/
theorem isSpace_of_isLineBreak {c : Char} (ends : isLineBreak c = true) : isSpace c = true := by
  simp only [isLineBreak, inRanges, List.any_cons, List.any_nil, Bool.or_false, Bool.or_eq_true,
    Bool.and_eq_true, decide_eq_true_eq] at ends
  simp only [isSpace, inRanges, spaceRanges, List.any_cons, List.any_nil, Bool.or_false,
    Bool.or_eq_true, Bool.and_eq_true, decide_eq_true_eq]
  omega

theorem isLineBreak_of_isSpace {c : Char} (solid : isSpace c = false) : isLineBreak c = false := by
  by_contra breaks
  rw [isSpace_of_isLineBreak (by simpa using breaks)] at solid
  cases solid

theorem ne_of_isWord {c sign : Char} (word : isWord c = true) (apart : isWord sign = false) :
    c ≠ sign := by
  rintro rfl
  rw [apart] at word
  cases word

/-- A run of characters ends where another kind of character follows. -/
theorem takeWhile_append_stop {p : Char → Bool} {s t : Text} (all : ∀ c ∈ s, p c = true)
    (stops : ∀ c ∈ t.head?, p c = false) :
    (s ++ t).takeWhile p = s ∧ (s ++ t).dropWhile p = t := by
  rw [List.takeWhile_append_of_pos all, List.dropWhile_append_of_pos all]
  cases t with
  | nil => simp
  | cons c t =>
    have stop := stops c rfl
    rw [List.takeWhile_cons_of_neg (by simp [stop]), List.dropWhile_cons_of_neg (by simp [stop])]
    exact ⟨List.append_nil s, rfl⟩

theorem dropWhile_ne_nil {p : Char → Bool} {c : Char} {s : Text} (member : c ∈ s)
    (stops : p c = false) : s.dropWhile p ≠ [] := by
  intro empty
  have passed := List.dropWhile_eq_nil_iff.mp empty c member
  rw [stops] at passed
  cases passed

/-- A run of characters that stops in a text does not depend on what follows the text. -/
theorem while_append {p : Char → Bool} {c : Char} {s : Text} (member : c ∈ s) (stops : p c = false)
    (t : Text) :
    (s ++ t).takeWhile p = s.takeWhile p ∧ (s ++ t).dropWhile p = s.dropWhile p ++ t := by
  have left := dropWhile_ne_nil member stops
  constructor
  · rw [List.takeWhile_append, if_neg]
    intro full
    -- a run as long as the text would leave nothing
    have same := List.takeWhile_append_dropWhile (p := p) (l := s)
    rw [(List.takeWhile_prefix p).eq_of_length full] at same
    exact left (List.append_right_eq_self.mp same)
  · rw [List.dropWhile_append, if_neg (by simpa using left)]

/-! ## Trimming -/

/-- The text begins with something that is not blank. -/
def Starts (s : Text) : Prop := ∃ c ∈ s.head?, isSpace c = false

/-- The text ends with something that is not blank. -/
def Ends (s : Text) : Prop := ∃ c ∈ s.getLast?, isSpace c = false

theorem starts_cons {c : Char} (solid : isSpace c = false) (rest : Text) : Starts (c :: rest) :=
  ⟨c, rfl, solid⟩

theorem Starts.ne_nil {s : Text} (starts : Starts s) : s ≠ [] := by
  rintro rfl
  obtain ⟨c, head, -⟩ := starts
  cases head

theorem Starts.append {s : Text} (starts : Starts s) (t : Text) : Starts (s ++ t) := by
  obtain ⟨c, head, solid⟩ := starts
  refine ⟨c, ?_, solid⟩
  rw [List.head?_append, Option.mem_def.mp head]
  rfl

theorem ends_concat {c : Char} (solid : isSpace c = false) (before : Text) :
    Ends (before ++ [c]) := ⟨c, by simp, solid⟩

theorem Ends.append {t : Text} (ends : Ends t) (s : Text) : Ends (s ++ t) := by
  obtain ⟨c, last, solid⟩ := ends
  refine ⟨c, ?_, solid⟩
  rw [List.getLast?_append, Option.mem_def.mp last]
  rfl

theorem Starts.trimStart {s : Text} (starts : Starts s) : trimStart s = s := by
  obtain ⟨c, head, solid⟩ := starts
  cases s with
  | nil => cases head
  | cons first rest =>
    cases Option.some.inj (Option.mem_def.mp head)
    rw [Text.trimStart, List.dropWhile_cons_of_neg (by simp [solid])]

theorem dropEndWhile_concat {p : Char → Bool} {c : Char} (kept : p c = false) (s : Text) :
    dropEndWhile p (s ++ [c]) = s ++ [c] := by
  simp [dropEndWhile, kept]

theorem dropEndWhile_append {p : Char → Bool} (s : Text) {t : Text} (all : ∀ c ∈ t, p c = true) :
    dropEndWhile p (s ++ t) = dropEndWhile p s := by
  rw [dropEndWhile, List.reverse_append, List.dropWhile_append_of_pos (by simpa using all)]
  rfl

/-- Dropping at the end stops at a character that is kept. -/
theorem dropEndWhile_append_of_last {p : Char → Bool} {s : Text}
    (kept : ∃ c ∈ s.getLast?, p c = false) (t : Text) :
    dropEndWhile p (s ++ t) = s ++ dropEndWhile p t := by
  obtain ⟨c, last, stop⟩ := kept
  obtain ⟨before, rfl⟩ := List.getLast?_eq_some_iff.mp last
  rw [dropEndWhile, List.reverse_append, List.dropWhile_append, List.reverse_append,
    List.reverse_singleton, List.singleton_append, List.dropWhile_cons_of_neg (by simp [stop])]
  split
  next empty => simp [dropEndWhile, List.isEmpty_iff.mp empty]
  next => simp [dropEndWhile]

theorem Ends.trimEnd {s : Text} (ends : Ends s) : trimEnd s = s := by
  obtain ⟨c, last, solid⟩ := ends
  obtain ⟨before, rfl⟩ := List.getLast?_eq_some_iff.mp last
  exact dropEndWhile_concat solid before

theorem trim_eq_self {s : Text} (starts : Starts s) (ends : Ends s) : trim s = s := by
  rw [trim, starts.trimStart, ends.trimEnd]

theorem trim_of_solid {s : Text} (solid : ∀ c ∈ s, isSpace c = false) : trim s = s := by
  cases s with
  | nil => rfl
  | cons c rest =>
    have last := List.getLast_mem (List.cons_ne_nil c rest)
    exact trim_eq_self (starts_cons (solid c List.mem_cons_self) rest)
      ⟨_, List.getLast?_eq_some_getLast _, solid _ last⟩

theorem trimStart_cons {c : Char} (solid : isSpace c = false) (rest : Text) :
    trimStart (c :: rest) = c :: rest :=
  (starts_cons solid rest).trimStart

theorem dropLeading?_trimStart {c : Char} (solid : isSpace c = false) (rest : Text) :
    dropLeading? [c] (trimStart (c :: rest)) = some rest := by
  rw [trimStart_cons solid]
  exact dropLeading?_eq_some.mpr rfl

theorem trimStart_space (s : Text) : trimStart (' ' :: s) = trimStart s := rfl

theorem trim_append {s gap : Text} (starts : Starts s) (ends : Ends s)
    (blank : ∀ c ∈ gap, isSpace c = true) : trim (s ++ gap) = s := by
  rw [trim, (starts.append gap).trimStart, trimEnd, dropEndWhile_append s blank]
  exact ends.trimEnd

theorem trimStart_append_of_blank {gap : Text} (blank : ∀ c ∈ gap, isSpace c = true) (s : Text) :
    trimStart (gap ++ s) = trimStart s :=
  List.dropWhile_append_of_pos blank

theorem starts_trimStart {s : Text} (filled : trimStart s ≠ []) : Starts (trimStart s) := by
  induction s with
  | nil => exact absurd rfl filled
  | cons c rest ih =>
    by_cases space : isSpace c = true
    · have same : trimStart (c :: rest) = trimStart rest := List.dropWhile_cons_of_pos space
      rw [same] at filled ⊢
      exact ih filled
    · have solid : isSpace c = false := by simpa using space
      rw [trimStart_cons solid]
      exact starts_cons solid rest

theorem prefix_dropEndWhile (p : Char → Bool) (s : Text) : dropEndWhile p s <+: s := by
  rw [← List.reverse_suffix, dropEndWhile, List.reverse_reverse]
  exact List.dropWhile_suffix p

theorem infix_trim (s : Text) : trim s <:+: s :=
  (prefix_dropEndWhile isSpace _).isInfix.trans (List.dropWhile_suffix isSpace).isInfix

theorem mem_dropWhile {p : Char → Bool} {c : Char} {s : Text} (member : c ∈ s) (kept : p c = false) :
    c ∈ s.dropWhile p := by
  rw [← List.takeWhile_append_dropWhile (p := p) (l := s), List.mem_append] at member
  refine member.resolve_left fun dropped => ?_
  rw [List.mem_takeWhile_imp dropped] at kept
  cases kept

theorem mem_trim {c : Char} {s : Text} (member : c ∈ s) (solid : isSpace c = false) : c ∈ trim s := by
  have front : c ∈ (trimStart s).reverse := List.mem_reverse.mpr (mem_dropWhile member solid)
  exact List.mem_reverse.mpr (mem_dropWhile front solid)

theorem starts_trim {s : Text} (filled : trim s ≠ []) : Starts (trim s) := by
  obtain ⟨after, whole⟩ := prefix_dropEndWhile isSpace (trimStart s)
  obtain ⟨c, rest, kept⟩ := List.exists_cons_of_ne_nil filled
  -- trimming at the end keeps what the text begins with
  have starts : Starts (trimStart s) := by
    apply starts_trimStart
    rintro empty
    rw [trim, empty] at filled
    exact filled rfl
  obtain ⟨d, first, solid⟩ := starts
  rw [← whole, ← trimEnd, ← trim, kept] at first
  cases first
  rw [kept]
  exact starts_cons solid rest

theorem ends_trim {s : Text} (filled : trim s ≠ []) : Ends (trim s) := by
  have backwards : Starts (trimStart (trimStart s).reverse) := by
    apply starts_trimStart
    intro empty
    exact filled (List.reverse_eq_nil_iff.mpr empty)
  obtain ⟨c, first, solid⟩ := backwards
  exact ⟨c, List.getLast?_reverse.trans first, solid⟩

theorem trim_trim (s : Text) : trim (trim s) = trim s := by
  by_cases filled : trim s = []
  · rw [filled]
    rfl
  · exact trim_eq_self (starts_trim filled) (ends_trim filled)

theorem dropLast?_concat (last : Char) (s : Text) : dropLast? last (s ++ [last]) = some s := by
  simp [dropLast?]

theorem eq_concat_of_dropLast? {last : Char} {s before : Text}
    (found : dropLast? last s = some before) : s = before ++ [last] := by
  unfold dropLast? at found
  split at found
  next c front turned =>
    split at found
    next same =>
      cases found
      rw [← List.reverse_reverse s, turned, List.reverse_cons, same]
    next => cases found
  next => cases found

theorem starts_of_trim {s : Text} (filled : s ≠ []) (trimmed : trim s = s) : Starts s := by
  rw [← trimmed] at filled ⊢
  exact starts_trim filled

theorem ends_of_trim {s : Text} (filled : s ≠ []) (trimmed : trim s = s) : Ends s := by
  rw [← trimmed] at filled ⊢
  exact ends_trim filled

theorem Starts.of_append {s t : Text} (starts : Starts (s ++ t)) (filled : s ≠ []) : Starts s := by
  obtain ⟨c, first, solid⟩ := starts
  exact ⟨c, by rwa [List.head?_append_of_ne_nil s filled] at first, solid⟩

theorem Ends.trimStart_ne_nil {s : Text} (ends : Ends s) : trimStart s ≠ [] := by
  obtain ⟨c, last, solid⟩ := ends
  intro empty
  rw [List.dropWhile_eq_nil_iff.mp empty c (List.mem_of_getLast? last)] at solid
  cases solid

theorem trimEnd_ne_nil {s : Text} (starts : Starts s) : trimEnd s ≠ [] := by
  obtain ⟨c, first, solid⟩ := starts
  intro empty
  have blank := List.dropWhile_eq_nil_iff.mp (List.reverse_eq_nil_iff.mp empty) c
    (List.mem_reverse.mpr (List.mem_of_mem_head? first))
  rw [solid] at blank
  cases blank

/-- Blank space of any kind, possibly none. -/
structure Gap where
  text : Text
  blank : ∀ c ∈ text, isSpace c = true

def Gap.empty : Gap := ⟨[], by simp⟩

theorem Gap.not_mem (gap : Gap) {c : Char} (solid : isSpace c = false) : c ∉ gap.text := by
  intro member
  rw [gap.blank c member] at solid
  cases solid

/-! ## Words -/

/-- At least one character, and only characters of words. -/
structure Word where
  text : Text
  filled : text ≠ []
  chars : ∀ c ∈ text, isWord c = true

namespace Word

theorem starts (word : Word) : Starts word.text := by
  obtain ⟨text, filled, chars⟩ := word
  cases text with
  | nil => exact absurd rfl filled
  | cons c rest => exact starts_cons (isSpace_of_isWord (chars c List.mem_cons_self)) rest

theorem ends (word : Word) : Ends word.text := by
  have last := List.getLast_mem word.filled
  exact ⟨_, List.getLast?_eq_some_getLast word.filled, isSpace_of_isWord (word.chars _ last)⟩

theorem not_mem (word : Word) {sign : Char} (apart : isWord sign = false) : sign ∉ word.text :=
  fun member => ne_of_isWord (word.chars sign member) apart rfl

/-- A word is read up to where no character of a word follows. -/
theorem word?_append (word : Word) {rest : Text} (stops : ∀ c ∈ rest.head?, isWord c = false) :
    word? (word.text ++ rest) = some (word.text, rest) := by
  have run := takeWhile_append_stop word.chars stops
  rw [word?, run.1, run.2, if_neg word.filled]

theorem word?_append_cons (word : Word) {c : Char} (stop : isWord c = false) (rest : Text) :
    word? (word.text ++ c :: rest) = some (word.text, c :: rest) :=
  word.word?_append fun d first => by
    cases Option.some.inj (Option.mem_def.mp first)
    exact stop

theorem trimStart_append (word : Word) (rest : Text) :
    trimStart (word.text ++ rest) = word.text ++ rest :=
  (word.starts.append rest).trimStart

end Word

/-! ## What was read -/

theorem exists_word {s word rest : Text} (found : word? s = some (word, rest)) :
    ∃ spelled : Word, spelled.text = word ∧ s = spelled.text ++ rest ∧
      ∀ c ∈ rest.head?, isWord c = false := by
  obtain ⟨whole, filled⟩ := word?_append found
  unfold word? at found
  split at found
  · cases found
  · cases found
    refine ⟨⟨s.takeWhile isWord, filled, fun c member => List.mem_takeWhile_imp member⟩, rfl,
      whole.symm, fun c first => ?_⟩
    have stop := List.head?_dropWhile_not isWord s
    rw [Option.mem_def.mp first] at stop
    simpa using stop

theorem exists_gap_trimStart (s : Text) : ∃ gap : Gap, s = gap.text ++ trimStart s :=
  ⟨⟨s.takeWhile isSpace, fun _ member => List.mem_takeWhile_imp member⟩,
    List.takeWhile_append_dropWhile.symm⟩

theorem exists_gap_trimEnd (s : Text) : ∃ gap : Gap, s = trimEnd s ++ gap.text := by
  obtain ⟨gap, whole⟩ := exists_gap_trimStart s.reverse
  refine ⟨⟨gap.text.reverse, fun c member => gap.blank c (List.mem_reverse.mp member)⟩, ?_⟩
  have turned := congrArg List.reverse whole
  rwa [List.reverse_reverse, List.reverse_append] at turned

/-! ## Phrases -/

/-- Words with one space between them. -/
def phrase (words : List Word) : Text := joinWith [' '] (words.map Word.text)

theorem phrase_cons (word : Word) {words : List Word} (more : words ≠ []) :
    phrase (word :: words) = word.text ++ ' ' :: phrase words := by
  rw [phrase, List.map_cons, joinWith_cons_of_ne_nil _ _ (by simpa using more)]
  simp [phrase]

theorem exists_phrase_cons (word : Word) (words : List Word) :
    ∃ rest, phrase (word :: words) = word.text ++ rest := by
  by_cases last : words = []
  · exact ⟨[], by simp [last, phrase, joinWith]⟩
  · exact ⟨_, phrase_cons word last⟩

theorem phrase_concat {words : List Word} (some_word : words ≠ []) (last : Word) :
    phrase (words ++ [last]) = phrase words ++ ' ' :: last.text := by
  induction words with
  | nil => exact absurd rfl some_word
  | cons word words ih =>
    by_cases single : words = []
    · subst single
      exact phrase_cons word (by simp)
    · rw [List.cons_append, phrase_cons word (by simp), ih single, phrase_cons word single,
        List.append_assoc, List.cons_append]

theorem mem_phrase {words : List Word} {c : Char} (member : c ∈ phrase words) :
    isWord c = true ∨ c = ' ' := by
  induction words with
  | nil => cases member
  | cons word words ih =>
    by_cases single : words = []
    · subst single
      exact Or.inl (word.chars c member)
    · rw [phrase_cons word single, List.mem_append, List.mem_cons] at member
      rcases member with inside | rfl | later
      · exact Or.inl (word.chars c inside)
      · exact Or.inr rfl
      · exact ih later

theorem phrase_starts {words : List Word} (some_word : words ≠ []) : Starts (phrase words) := by
  cases words with
  | nil => exact absurd rfl some_word
  | cons word words =>
    by_cases single : words = []
    · subst single
      exact word.starts
    · rw [phrase_cons word single]
      exact word.starts.append _

theorem phrase_ends {words : List Word} (some_word : words ≠ []) : Ends (phrase words) := by
  obtain ⟨before, last, rfl⟩ := List.eq_nil_or_concat words |>.resolve_left some_word
  by_cases single : before = []
  · subst single
    exact last.ends
  · rw [List.concat_eq_append, phrase_concat single]
    exact (last.ends.append [' ']).append _

end CHeader.Text
