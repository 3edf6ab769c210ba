import CHeader.Proofs.Prototype

/-!
# Prototypes in front of semicolons

Heads can be looked for in a whole text, with no regard to where its semicolons stand: from left to
right, at the beginning of each word, and on behind the semicolon that ends a head. `Searched` says so,
over every way in which a head can be spelled. No spelling holds a semicolon before its last one, so
that the search finds what the pieces between semicolons declare each on their own
(`extract_searched`). What a text declares up to a semicolon therefore depends on nothing behind it,
and what it declares behind the semicolon on nothing before it.
-/
namespace CHeader.Prototype

open Text

/-! ## How a head can be spelled -/

/-- A return word with stars, a name that does not go on from the word, and parentheses with a blank
end; blank space may stand between all parts. -/
structure Head.Spelling where
  returns : Word
  pointer : Text
  before : Gap
  name : Word
  between : Gap
  parameters : Text
  ending : Gap
  /-- Blank space belongs to the stars only if a star follows. -/
  stars : ∀ c ∈ pointer, isSpace c = true ∨ c = '*'
  starred : pointer = [] ∨ pointer.getLast? = some '*'
  apart : pointer ++ before.text ≠ []
  single : ';' ∉ parameters

namespace Head.Spelling

def head (spelling : Spelling) : Head :=
  ⟨spelling.returns.text ++ spelling.pointer, spelling.name.text, spelling.parameters⟩

/-- What stands behind the return word and its stars. -/
def rest (spelling : Spelling) : Text :=
  spelling.before.text ++ (spelling.name.text ++ (spelling.between.text ++
    '(' :: (spelling.parameters ++ ')' :: spelling.ending.text)))

def piece (spelling : Spelling) : Text :=
  spelling.returns.text ++ (spelling.pointer ++ spelling.rest)

end Head.Spelling

/-! ### Stars -/

theorem stars_append_self (s : Text) : (Text.stars s).1 ++ (Text.stars s).2 = s := by
  induction s with
  | nil => rfl
  | cons c rest ih =>
    rw [Text.stars]
    split
    next star => simp [ih, star]
    next =>
      split
      next => simp [ih]
      next => rfl

theorem mem_stars {s : Text} {c : Char} (member : c ∈ (Text.stars s).1) :
    isSpace c = true ∨ c = '*' := by
  induction s with
  | nil => cases member
  | cons d rest ih =>
    rw [Text.stars] at member
    split at member
    next =>
      rcases List.mem_cons.mp member with star | later
      · exact Or.inr star
      · exact ih later
    next =>
      split at member
      next space =>
        rcases List.mem_cons.mp member with rfl | later
        · exact Or.inl (Bool.and_eq_true_iff.mp space).1
        · exact ih later
      next => cases member

theorem stars_starred (s : Text) :
    (Text.stars s).1 = [] ∨ (Text.stars s).1.getLast? = some '*' := by
  induction s with
  | nil => exact Or.inl rfl
  | cons c rest ih =>
    rw [Text.stars]
    split
    next =>
      right
      rcases ih with none | last
      · rw [none]
        rfl
      · simp [List.getLast?_cons, last]
    next =>
      split
      next space =>
        -- blank space is taken only in front of a star
        have more := (Bool.and_eq_true_iff.mp space).2
        have last := ih.resolve_left (by simpa using more)
        exact Or.inr (by simp [List.getLast?_cons, last])
      next => exact Or.inl rfl

/-- No stars stand in front of a name. -/
theorem stars_name (gap : Gap) (name : Word) (rest : Text) :
    Text.stars (gap.text ++ (name.text ++ rest)) = ([], gap.text ++ (name.text ++ rest)) := by
  obtain ⟨gap, blank⟩ := gap
  induction gap with
  | nil =>
    obtain ⟨c, others, start⟩ := List.exists_cons_of_ne_nil name.filled
    have inside : isWord c = true := name.chars c (start ▸ List.mem_cons_self)
    have solid := isSpace_of_isWord inside
    simp only [List.nil_append, start, List.cons_append]
    rw [Text.stars, if_neg (ne_of_isWord inside (by decide)), if_neg (by simp [solid])]
  | cons c gap ih =>
    obtain ⟨here, others⟩ := List.forall_mem_cons.mp blank
    have noStar : c ≠ '*' := by
      rintro rfl
      revert here
      decide
    have later := ih others
    simp only [List.cons_append] at later ⊢
    rw [Text.stars, if_neg noStar, if_neg (by simp [later])]

theorem stars_append {pointer rest : Text} (chars : ∀ c ∈ pointer, isSpace c = true ∨ c = '*')
    (starred : pointer = [] ∨ pointer.getLast? = some '*')
    (bare : Text.stars rest = ([], rest)) :
    Text.stars (pointer ++ rest) = (pointer, rest) := by
  induction pointer with
  | nil => exact bare
  | cons c pointer ih =>
    obtain ⟨here, others⟩ := List.forall_mem_cons.mp chars
    have last := starred.resolve_left (List.cons_ne_nil c pointer)
    cases pointer with
    | nil =>
      obtain rfl : c = '*' := Option.some.inj last
      simp [Text.stars, bare]
    | cons d pointer =>
      rw [List.getLast?_cons_cons] at last
      rw [List.cons_append, Text.stars, ih others (Or.inr last)]
      by_cases star : c = '*'
      · simp [star]
      · simp [star, here.resolve_right star]

/-! ### Reading a spelling -/

namespace Head.Spelling

theorem exists_start (spelling : Spelling) :
    ∃ c rest, spelling.piece = c :: rest ∧ isWord c = true := by
  obtain ⟨c, others, start⟩ := List.exists_cons_of_ne_nil spelling.returns.filled
  refine ⟨c, others ++ (spelling.pointer ++ spelling.rest), ?_, ?_⟩
  · rw [piece, start, List.cons_append]
  · exact spelling.returns.chars c (start ▸ List.mem_cons_self)

theorem not_mem_semicolon (spelling : Spelling) : ';' ∉ spelling.piece := by
  have noWord : isWord ';' = false := by decide
  have noSpace : isSpace ';' = false := by decide
  have noStar : ';' ∉ spelling.pointer := by
    intro member
    rcases spelling.stars ';' member with space | star
    · rw [noSpace] at space
      cases space
    · cases star
  simp [piece, rest, noStar, spelling.returns.not_mem noWord, spelling.name.not_mem noWord,
    spelling.before.not_mem noSpace, spelling.between.not_mem noSpace,
    spelling.ending.not_mem noSpace, spelling.single]

/-- The return word ends where its stars or the blank space begin. -/
theorem word?_piece (spelling : Spelling) :
    word? spelling.piece = some (spelling.returns.text, spelling.pointer ++ spelling.rest) := by
  apply spelling.returns.word?_append
  intro c first
  have member : c ∈ spelling.pointer ++ spelling.before.text := by
    rw [rest, ← List.append_assoc, List.head?_append_of_ne_nil _ spelling.apart] at first
    exact List.mem_of_mem_head? first
  rcases List.mem_append.mp member with star | space
  · rcases spelling.stars c star with space | rfl
    · exact isWord_of_isSpace space
    · decide
  · exact isWord_of_isSpace (spelling.before.blank c space)

theorem at?_piece (spelling : Spelling) : Head.at? spelling.piece = some spelling.head := by
  have pointer : Text.stars (spelling.pointer ++ spelling.rest) =
      (spelling.pointer, spelling.rest) :=
    stars_append spelling.stars spelling.starred
      (stars_name spelling.before spelling.name _)
  -- the name is followed by blank space or by the parenthesis
  have name : word? (trimStart spelling.rest) = some (spelling.name.text,
      spelling.between.text ++ '(' :: (spelling.parameters ++ ')' :: spelling.ending.text)) := by
    rw [rest, trimStart_append_of_blank spelling.before.blank, spelling.name.trimStart_append]
    apply spelling.name.word?_append
    intro c first
    by_cases bare : spelling.between.text = []
    · rw [bare] at first
      cases first
      decide
    · rw [List.head?_append_of_ne_nil _ bare] at first
      exact isWord_of_isSpace (spelling.between.blank c (List.mem_of_mem_head? first))
  have opened : dropLeading? ['('] (trimStart (spelling.between.text ++
      '(' :: (spelling.parameters ++ ')' :: spelling.ending.text))) =
        some (spelling.parameters ++ ')' :: spelling.ending.text) := by
    rw [trimStart_append_of_blank spelling.between.blank]
    exact dropLeading?_trimStart (by decide) _
  have closed : dropLast? ')' (trimEnd (spelling.parameters ++ ')' :: spelling.ending.text)) =
      some spelling.parameters := by
    rw [List.append_cons, trimEnd, dropEndWhile_append _ spelling.ending.blank,
      dropEndWhile_concat (by decide), dropLast?_concat]
  simp only [Head.at?, spelling.word?_piece, pointer, name, opened, closed, Option.bind_eq_bind,
    Option.bind_some, Option.pure_def, head]

end Head.Spelling

/-! ### Spelling what was read -/

/-- Every head that a piece begins with is spelled in one of the ways. -/
theorem exists_spelling {piece : Text} {head : Head} (single : ';' ∉ piece)
    (found : Head.at? piece = some head) :
    ∃ spelling : Head.Spelling, spelling.piece = piece ∧ spelling.head = head := by
  simp only [Head.at?, Option.bind_eq_bind, Option.bind_eq_some_iff] at found
  obtain ⟨⟨word, rest⟩, first, ⟨name, afterName⟩, second, opened, opens, parameters, closes, made⟩ :=
    found
  cases made
  dsimp only at second opens
  obtain ⟨returns, rfl, rfl, stops⟩ := exists_word first
  obtain ⟨named, rfl, named_rest, -⟩ := exists_word second
  obtain ⟨before, between_stars⟩ := exists_gap_trimStart (Text.stars rest).2
  obtain ⟨between, after_name⟩ := exists_gap_trimStart afterName
  obtain ⟨ending, whole⟩ := exists_gap_trimEnd opened
  rw [eq_concat_of_dropLast? closes] at whole
  rw [dropLeading?_eq_some.mp opens, whole] at after_name
  rw [named_rest, after_name] at between_stars
  -- all that follows the return word, part by part
  have parts : rest = (Text.stars rest).1 ++ (before.text ++ (named.text ++ (between.text ++
      '(' :: (parameters ++ ')' :: ending.text)))) := by
    have split := stars_append_self rest
    rw [between_stars] at split
    simpa using split.symm
  have apart : (Text.stars rest).1 ++ before.text ≠ [] := by
    intro empty
    -- else the return word would go on in the name
    rw [← List.append_assoc, empty, List.nil_append] at parts
    obtain ⟨c, others, start⟩ := List.exists_cons_of_ne_nil named.filled
    have noWord : isWord c = false := stops c (by rw [parts, start]; rfl)
    rw [named.chars c (start ▸ List.mem_cons_self)] at noWord
    cases noWord
  have inside : ';' ∉ parameters := by
    intro member
    apply single
    rw [parts]
    simp [member]
  exact ⟨⟨returns, (Text.stars rest).1, before, named, between, parameters, ending,
    fun c => mem_stars, stars_starred rest, apart, inside⟩, congrArg _ parts.symm, rfl⟩

/-! ## Searching a whole text -/

/-- The heads that are found from a place on: where none is spelled the search goes on behind one
character, and else behind the semicolon that ends the head. No head starts within a word. -/
inductive Searched : (afterWord : Bool) → Text → List Head → Prop
  | done (afterWord : Bool) : Searched afterWord [] []
  | found {rest : Text} {heads : List Head} (spelling : Head.Spelling)
      (later : Searched false rest heads) :
      Searched false (spelling.piece ++ ';' :: rest) (spelling.head :: heads)
  | pass {afterWord : Bool} {c : Char} {rest : Text} {heads : List Head}
      (nothing : afterWord = true ∨
        ∀ (spelling : Head.Spelling) (after : Text), c :: rest ≠ spelling.piece ++ ';' :: after)
      (later : Searched (isWord c) rest heads) : Searched afterWord (c :: rest) heads

/-- A text is cut in one way at its first semicolon. -/
theorem eq_of_append_cons {sign : Char} {s t u v : Text} (absent : sign ∉ s) (other : sign ∉ t)
    (same : s ++ sign :: u = t ++ sign :: v) : s = t ∧ u = v := by
  induction s generalizing t with
  | nil =>
    cases t with
    | nil =>
      cases same
      exact ⟨rfl, rfl⟩
    | cons d t =>
      cases same
      exact absurd List.mem_cons_self other
  | cons c s ih =>
    cases t with
    | nil =>
      cases same
      exact absurd List.mem_cons_self absent
    | cons d t =>
      rw [List.cons_append, List.cons_append, List.cons.injEq] at same
      obtain ⟨rfl, same⟩ := same
      simp only [List.mem_cons, not_or] at absent other
      obtain ⟨rfl, rfl⟩ := ih absent.2 other.2 same
      exact ⟨rfl, rfl⟩

theorem Searched.unique {afterWord : Bool} {s : Text} {heads others : List Head}
    (first : Searched afterWord s heads) (second : Searched afterWord s others) :
    heads = others := by
  induction first generalizing others with
  | done =>
    generalize empty : ([] : Text) = s at second
    cases second with
    | done => rfl
    | found => simp at empty
    | pass => cases empty
  | @found rest heads spelling _ ih =>
    generalize whole : spelling.piece ++ ';' :: rest = s at second
    cases second with
    | done => simp at whole
    | found other later =>
      -- both spellings take the text up to its first semicolon, and what is read there is one head
      obtain ⟨piece, rfl⟩ :=
        eq_of_append_cons spelling.not_mem_semicolon other.not_mem_semicolon whole
      have head := spelling.at?_piece
      rw [piece, other.at?_piece, Option.some.injEq] at head
      rw [head, ih later]
    | pass nothing =>
      exact absurd whole.symm ((nothing.resolve_left (by simp)) spelling rest)
  | @pass afterWord c rest heads nothing _ ih =>
    generalize whole : c :: rest = s at second
    cases second with
    | done => cases whole
    | found other => exact absurd whole ((nothing.resolve_left (by simp)) other _)
    | pass _ later =>
      cases whole
      exact ih later

/-- No head is spelled where a sign stands. -/
theorem ne_piece_of_noWord {c : Char} (noWord : isWord c = false) (rest : Text)
    (spelling : Head.Spelling) (after : Text) : c :: rest ≠ spelling.piece ++ ';' :: after := by
  obtain ⟨d, others, start, word⟩ := spelling.exists_start
  rw [start]
  rintro ⟨⟩
  rw [noWord] at word
  cases word

/-- Up to a semicolon the search finds the head that decides the piece. -/
theorem searched_piece {piece rest : Text} {heads : List Head} (single : ';' ∉ piece)
    (afterWord : Bool) (later : Searched false rest heads) :
    Searched afterWord (piece ++ ';' :: rest)
      ((Head.find? afterWord piece).toList ++ heads) := by
  induction piece generalizing afterWord with
  | nil =>
    have sign : isWord ';' = false := by decide
    apply Searched.pass
    · exact Or.inr (ne_piece_of_noWord sign rest)
    · rw [sign]
      exact later
  | cons c piece ih =>
    have others : ';' ∉ piece := fun member => single (List.mem_cons_of_mem c member)
    rw [Head.find?]
    split
    next starts =>
      simp only [Bool.and_eq_true, Bool.not_eq_true'] at starts
      obtain ⟨word, rfl⟩ := starts
      cases found : Head.at? (c :: piece) with
      | some head =>
        obtain ⟨spelling, spelled, rfl⟩ := exists_spelling single found
        rw [← spelled]
        exact .found spelling later
      | none =>
        have next := ih others true
        apply Searched.pass
        · right
          rintro spelling after same
          obtain ⟨whole, -⟩ := eq_of_append_cons single spelling.not_mem_semicolon same
          rw [whole, spelling.at?_piece] at found
          cases found
        · rw [word]
          exact next
    next noStart =>
      apply Searched.pass
      · cases afterWord with
        | true => exact Or.inl rfl
        | false => exact Or.inr (ne_piece_of_noWord (by simpa using noStart) _)
      · exact ih others (isWord c)

/-- Without a semicolon no head ends. -/
theorem searched_end {s : Text} (single : ';' ∉ s) (afterWord : Bool) :
    Searched afterWord s [] := by
  induction s generalizing afterWord with
  | nil => exact .done afterWord
  | cons c rest ih =>
    apply Searched.pass
    · right
      rintro spelling after same
      exact single (by simp [same])
    · exact ih (fun member => single (List.mem_cons_of_mem c member)) (isWord c)

/-- What is extracted from a text are the prototypes among the heads that a search of the whole text
finds, and there is no choice in the search. -/
theorem extract_searched (flat : Text) :
    ∃ heads, Searched false flat heads ∧ (∀ others, Searched false flat others → others = heads) ∧
      extract flat = heads.filterMap Head.prototype? := by
  induction size : flat.length using Nat.strongRecOn generalizing flat with
  | ind size ih =>
    subst size
    by_cases semicolon : ';' ∈ flat
    · obtain ⟨piece, rest, rfl, single⟩ := List.eq_append_cons_of_mem semicolon
      obtain ⟨heads, searched, -, extracted⟩ := ih _ (by simp; omega) rest rfl
      have whole := searched_piece single false searched
      refine ⟨_, whole, fun others again => again.unique whole, ?_⟩
      rw [extract_append single, extracted, List.filterMap_append, ofPiece?]
      cases Head.find? false piece with
      | none => rfl
      | some head => cases made : head.prototype? <;> simp [made]
    · have nothing := searched_end semicolon false
      refine ⟨[], nothing, fun others again => again.unique nothing, ?_⟩
      rw [extract, splitOn_eq_singleton semicolon]
      rfl

/-! ## Semicolons -/

/-- What is declared up to a semicolon and what is declared behind it make up what is declared. -/
theorem extract_append_semicolon (s t : Text) :
    extract (s ++ ';' :: t) = extract (s ++ [';']) ++ extract t := by
  have front : extract (s ++ [';']) = (splitOn ';' s).filterMap ofPiece? := by
    rw [extract, splitOn_append]
    exact congrArg _ List.dropLast_concat
  rw [front, extract, extract, splitOn_append, List.dropLast_append_of_ne_nil (splitOn_ne_nil ';' t),
    List.filterMap_append]

/-- A text declares what it declares up to a semicolon, and behind it. Without a semicolon it declares
nothing, and up to its first semicolon one function at most: each piece stands for itself. -/
theorem extract_local (s : Text) :
    (∀ t, extract (s ++ ';' :: t) = extract (s ++ [';']) ++ extract t) ∧
      (';' ∉ s → extract s = [] ∧ (extract (s ++ [';'])).length ≤ 1) ∧
      extract s = (splitOn ';' s).dropLast.flatMap fun piece => extract (piece ++ [';']) := by
  have piece {p : Text} (single : ';' ∉ p) : extract (p ++ [';']) = (ofPiece? p).toList :=
    (extract_append single []).trans (List.append_nil _)
  refine ⟨extract_append_semicolon s, fun single => ⟨?_, ?_⟩, ?_⟩
  · rw [extract, splitOn_eq_singleton single]
    rfl
  · rw [piece single]
    exact Option.length_toList_le
  · rw [extract, List.filterMap_eq_flatMap_toList]
    refine List.flatMap_congr fun p member => ?_
    rw [piece (not_mem_of_mem_splitOn (List.dropLast_subset _ member))]

/-- A function that takes a callback, behind the end of a block that is not its own. -/
theorem extract_local_callback :
    ';' ∉ "\x7d extern int each(int (*visit)(void))".toList ∧
      (extract "\x7d extern int each(int (*visit)(void))".toList = [] ∧
        (extract ("\x7d extern int each(int (*visit)(void))".toList ++ [';'])).length ≤ 1) :=
  have single : ';' ∉ "\x7d extern int each(int (*visit)(void))".toList := by decide
  ⟨single, (extract_local _).2.1 single⟩

end CHeader.Prototype
