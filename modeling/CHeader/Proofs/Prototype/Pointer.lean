import CHeader.Proofs.Prototype
import CHeader.Proofs.Record
import CHeader.Proofs.Text.Scan

/-!
# Function pointers and prototypes

A head is a return word, a name and a parenthesis. In a declaration of a function pointer the words of
the returned type stand in front of a parenthesis, so that the last two of them can be taken for a head:
the declaration is found as a prototype, unless there are stars behind the words or one of the two words
cannot stand in a prototype. Nothing else in the declaration starts a head, since a parenthesis stands
only where a sign or a single word comes before it.
-/
namespace CHeader.Prototype

open Text

/-! ## Where no head starts -/

section

variable {lead s : Text} {c : Char}

theorem past_at? {head : Head} (found : Head.at? s = some head) :
    ∃ opened, Past s ('(' :: opened) := by
  simp only [Head.at?, Option.bind_eq_bind, Option.bind_eq_some_iff] at found
  obtain ⟨⟨word, rest⟩, first, ⟨name, afterName⟩, second, opened, parenthesis, -⟩ := found
  refine ⟨opened, ?_⟩
  have opens := dropLeading?_eq_some.mp parenthesis
  have before : Past rest (trimStart (stars rest).2) := (past_stars rest).trans (past_trimStart _)
  have after : Past afterName ('(' :: opened) := by
    have trimmed := past_trimStart afterName
    rwa [opens] at trimmed
  exact (past_word? first).trans (before.trans ((past_word? second).trans after))

/-- No head reaches its parenthesis past another sign. -/
theorem at?_eq_none (absent : '(' ∉ lead) (barrier : ¬IsPassed c) (other : c ≠ '(') (rest : Text) :
    Head.at? (lead ++ c :: rest) = none := by
  rw [Option.eq_none_iff_forall_ne_some]
  intro head found
  obtain ⟨opened, past⟩ := past_at? found
  rcases past.mem_or_eq rfl barrier with inside | same
  · exact absent inside
  · exact other same.symm

theorem find?_skip (absent : '(' ∉ lead) (barrier : ¬IsPassed c) (other : c ≠ '(')
    (afterWord : Bool) (rest : Text) :
    Head.find? afterWord (lead ++ c :: rest) = Head.find? false rest := by
  have noWord : isWord c = false := by simpa using fun word => barrier (Or.inl word)
  induction lead generalizing afterWord with
  | nil => rw [List.nil_append, Head.find?, if_neg (by simp [noWord]), noWord]
  | cons d lead ih =>
    have nothing := at?_eq_none absent barrier other rest
    have later := ih fun member => absent (List.mem_cons_of_mem d member)
    rw [List.cons_append] at nothing ⊢
    rw [Head.find?, nothing, later, later, ite_self]

theorem find?_eq_none (absent : '(' ∉ s) (afterWord : Bool) : Head.find? afterWord s = none := by
  induction s generalizing afterWord with
  | nil => rfl
  | cons c rest ih =>
    have later := ih fun member => absent (List.mem_cons_of_mem c member)
    have nothing : Head.at? (c :: rest) = none := by
      rw [Option.eq_none_iff_forall_ne_some]
      intro head found
      obtain ⟨opened, before, whole, -⟩ := past_at? found
      exact absent (whole ▸ by simp)
    rw [Head.find?, nothing, later, later, ite_self]

section

variable {pointer : Text} (stars : ∀ c ∈ pointer, isSpace c = true ∨ c = '*') (rest : Text)
include stars

theorem isSpace_of_stars (bare : (Text.stars (pointer ++ '(' :: rest)).1 = []) :
    ∀ c ∈ pointer, isSpace c = true := by
  induction pointer with
  | nil => simp
  | cons c pointer ih =>
    obtain ⟨here, others⟩ := List.forall_mem_cons.mp stars
    rw [List.cons_append, Text.stars] at bare
    split at bare
    next => cases bare
    next noStar =>
      have space := here.resolve_right noStar
      split at bare
      next => cases bare
      next none =>
        rw [space, Bool.true_and] at none
        exact List.forall_mem_cons.mpr ⟨space, ih others (by simpa using none)⟩

/-- Stars before a parenthesis are all passed, and so is the blank space after them. -/
theorem trimStart_stars :
    trimStart (Text.stars (pointer ++ '(' :: rest)).2 = '(' :: rest := by
  induction pointer with
  | nil =>
    have solid : isSpace '(' = false := by decide
    rw [List.nil_append, Text.stars, if_neg (by decide), if_neg (by simp [solid])]
    exact trimStart_cons solid rest
  | cons c pointer ih =>
    obtain ⟨here, others⟩ := List.forall_mem_cons.mp stars
    rw [List.cons_append, Text.stars]
    split
    next => exact ih others
    next noStar =>
      split
      next => exact ih others
      next none =>
        -- there is no star any more
        have space := here.resolve_right noStar
        rw [space, Bool.true_and] at none
        have blank := isSpace_of_stars others rest (by simpa using none)
        have passed := trimStart_append_of_blank (List.forall_mem_cons.mpr ⟨space, blank⟩)
          ('(' :: rest)
        exact passed.trans (trimStart_cons (by decide) rest)

/-- After a word with stars the name is missing if a parenthesis follows. -/
theorem at?_pointer (word : Word) : Head.at? (word.text ++ (pointer ++ '(' :: rest)) = none := by
  have first : word? (word.text ++ (pointer ++ '(' :: rest)) =
      some (word.text, pointer ++ '(' :: rest) := by
    apply word.word?_append
    intro c start
    cases pointer with
    | nil =>
      cases start
      decide
    | cons d pointer =>
      cases start
      rcases stars c List.mem_cons_self with space | rfl
      · exact isWord_of_isSpace space
      · decide
  have sign : isWord '(' = false := by decide
  have second : word? ('(' :: rest) = none := if_pos (by simp [sign])
  simp only [Head.at?, first, trimStart_stars stars, second, Option.bind_eq_bind, Option.bind_some,
    Option.bind_none]

end

/-- Heads start at the beginning of a word only. -/
theorem find?_word {word : Text} (chars : ∀ c ∈ word, isWord c = true) (rest : Text) :
    Head.find? true (word ++ rest) = Head.find? true rest := by
  induction word with
  | nil => rfl
  | cons c word ih =>
    obtain ⟨here, others⟩ := List.forall_mem_cons.mp chars
    rw [List.cons_append, Head.find?, if_neg (by simp), here]
    exact ih others

theorem find?_noWord {lead : Text} (signs : ∀ c ∈ lead, isWord c = false) (filled : lead ≠ [])
    (afterWord : Bool) (rest : Text) :
    Head.find? afterWord (lead ++ rest) = Head.find? false rest := by
  induction lead generalizing afterWord with
  | nil => exact absurd rfl filled
  | cons c lead ih =>
    obtain ⟨here, others⟩ := List.forall_mem_cons.mp signs
    rw [List.cons_append, Head.find?, if_neg (by simp [here]), here]
    by_cases last : lead = []
    · rw [last, List.nil_append]
    · exact ih others last false

end

/-! ## Two words in front of a parenthesis -/

/-- A word starts a head, or the search goes on behind it. -/
theorem find?_start (word : Word) (rest : Text) :
    Head.find? false (word.text ++ rest) =
      (Head.at? (word.text ++ rest)).or (Head.find? true rest) := by
  obtain ⟨c, others, start⟩ := List.exists_cons_of_ne_nil word.filled
  obtain ⟨here, inside⟩ := List.forall_mem_cons.mp (start ▸ word.chars)
  rw [start, List.cons_append, Head.find?, if_pos (by simp [here])]
  cases Head.at? (c :: (others ++ rest)) with
  | some head => rfl
  | none => exact find?_word inside rest

/-- The word behind the first one is the name. -/
theorem at?_pair (returns name : Word) {rest : Text} (stops : ∀ c ∈ rest.head?, isWord c = false) :
    Head.at? (returns.text ++ ' ' :: (name.text ++ rest)) =
      (dropLeading? ['('] (trimStart rest)).bind fun opened =>
        (dropLast? ')' (trimEnd opened)).map (⟨returns.text, name.text, ·⟩) := by
  simp only [Head.at?, returns.word?_append_cons (show isWord ' ' = false by decide), stars_space,
    trimStart_space, name.trimStart_append, name.word?_append stops, Option.bind_eq_bind,
    Option.bind_some, List.append_nil, Option.pure_def, Option.map_eq_bind]
  rfl

theorem dropLeading?_word (word : Word) (rest : Text) :
    dropLeading? ['('] (trimStart (word.text ++ rest)) = none := by
  obtain ⟨c, others, start⟩ := List.exists_cons_of_ne_nil word.filled
  have inside : isWord c = true := word.chars c (start ▸ List.mem_cons_self)
  rw [word.trimStart_append, start, List.cons_append, dropLeading?,
    if_neg (ne_of_isWord inside (by decide)).symm]

/-! ## Function pointers -/

/-- A declaration of a function pointer: the words of the type that it returns, stars and blank space,
its name, and the text of its arguments. -/
structure FunctionPointer where
  words : List Word
  filled : words ≠ []
  pointer : Text
  stars : ∀ c ∈ pointer, isSpace c = true ∨ c = '*'
  name : Word
  arguments : Text
  chars : ∀ c ∈ arguments, isWord c = true ∨ isSpace c = true ∨ c = '*' ∨ c = ','

namespace FunctionPointer

/-- What stands in the outermost parentheses, if the first one is taken to open a list of parameters. -/
def inside (form : FunctionPointer) : Text := '*' :: (form.name.text ++ ')' :: '(' :: form.arguments)

/-- What follows the words of the type. -/
def tail (form : FunctionPointer) : Text := form.pointer ++ '(' :: (form.inside ++ [')'])

def text (form : FunctionPointer) : Text := phrase form.words ++ form.tail

/-- The last two words of a type. -/
def lastTwo? : List Word → Option (Word × Word)
  | [returns, name] => some (returns, name)
  | _ :: words => lastTwo? words
  | [] => none

/-- The head that a function pointer is taken for. -/
def head? (form : FunctionPointer) : Option Head :=
  (lastTwo? form.words).bind fun (returns, name) =>
    if '*' ∈ form.pointer then none else some ⟨returns.text, name.text, form.inside⟩

/-- The prototype that a function pointer is mistaken for: the last two words of its type are read as
the return word and the name. -/
def mistaken? (form : FunctionPointer) : Option Prototype :=
  (lastTwo? form.words).bind fun (returns, name) =>
    if '*' ∈ form.pointer ∨ name.text ∈ Parameter.typeWords ∨ name.text ∈ reservedWords ∨
        returns.text ∈ reservedWords then none
    else some ⟨name.text, returns.text, Parameter.parseList form.inside⟩

variable (form : FunctionPointer)

theorem not_mem_arguments {sign : Char}
    (apart : isWord sign = false ∧ isSpace sign = false ∧ sign ≠ '*' ∧ sign ≠ ',') :
    sign ∉ form.arguments := by
  intro member
  simpa [apart] using form.chars sign member

theorem tail_stops : ∀ c ∈ form.tail.head?, isWord c = false := by
  intro c first
  rw [tail] at first
  cases pointer : form.pointer with
  | nil =>
    rw [pointer] at first
    cases first
    decide
  | cons d others =>
    rw [pointer] at first
    cases first
    rcases form.stars c (pointer ▸ List.mem_cons_self) with space | rfl
    · exact isWord_of_isSpace space
    · decide

/-- Behind the words no head starts: the name is followed by a sign, and nothing behind the parenthesis
of the arguments opens another one. -/
theorem find?_tail : Head.find? true form.tail = none := by
  have signs : ∀ c ∈ form.pointer ++ ['(', '*'], isWord c = false := by
    have last : ∀ c ∈ ['(', '*'], isWord c = false := by decide
    intro c member
    rcases List.mem_append.mp member with star | sign
    · rcases form.stars c star with space | rfl
      · exact isWord_of_isSpace space
      · decide
    · exact last c sign
  have closing : '(' ∉ form.arguments ++ [')'] := by
    simp [form.not_mem_arguments (show isWord '(' = false ∧ isSpace '(' = false ∧ '(' ≠ '*' ∧
      '(' ≠ ',' by decide)]
  have whole : form.tail = (form.pointer ++ ['(', '*']) ++
      (form.name.text ++ ')' :: (['('] ++ (form.arguments ++ [')']))) := by
    simp [tail, inside]
  rw [whole, find?_noWord signs (by simp), find?_skip (form.name.not_mem (by decide)) (by decide)
    (by decide), find?_noWord (by decide) (by simp), find?_eq_none closing]

/-- The name of a head is followed by its parenthesis if no star comes between them. -/
theorem dropLeading?_tail : dropLeading? ['('] (trimStart form.tail) =
    if '*' ∈ form.pointer then none else some (form.inside ++ [')']) := by
  obtain ⟨words, filled, pointer, stars, name, arguments, chars⟩ := form
  dsimp only [tail, inside]
  induction pointer with
  | nil => exact dropLeading?_trimStart (by decide) _
  | cons c pointer ih =>
    obtain ⟨here, others⟩ := List.forall_mem_cons.mp stars
    rcases here with space | rfl
    · have blank : trimStart (c :: pointer ++ '(' :: ('*' :: (name.text ++ ')' :: '(' :: arguments) ++
          [')'])) = trimStart (pointer ++ '(' :: ('*' :: (name.text ++ ')' :: '(' :: arguments) ++
            [')'])) := List.dropWhile_cons_of_pos space
      have noStar : c ≠ '*' := by
        rintro rfl
        cases space
      rw [blank, ih others]
      simp [Ne.symm noStar]
    · rw [List.cons_append, trimStart_cons (by decide), dropLeading?]
      simp

/-- The last two words are the only ones that a parenthesis follows. -/
theorem find?_text : Head.find? false form.text = form.head? := by
  have opened : dropLast? ')' (trimEnd (form.inside ++ [')'])) = some form.inside := by
    rw [(ends_concat (by decide) _).trimEnd, dropLast?_concat]
  have after := form.find?_tail
  have parenthesis := form.dropLeading?_tail
  have stops := form.tail_stops
  have single (word : Word) : Head.at? (word.text ++ form.tail) = none :=
    at?_pointer form.stars (form.inside ++ [')']) word
  rw [text, head?]
  have filled := form.filled
  generalize form.words = words at filled
  induction words with
  | nil => exact absurd rfl filled
  | cons returns words ih =>
    cases words with
    | nil =>
      have alone : phrase [returns] = returns.text := rfl
      rw [alone, find?_start, single, after]
      rfl
    | cons name words =>
      have next : Head.find? true (' ' :: (phrase (name :: words) ++ form.tail)) =
          Head.find? false (phrase (name :: words) ++ form.tail) := rfl
      rw [phrase_cons returns (List.cons_ne_nil name words), List.append_assoc, List.cons_append,
        find?_start, next, ih (List.cons_ne_nil name words)]
      cases words with
      | nil =>
        have alone : phrase [name] = name.text := rfl
        rw [alone, at?_pair returns name stops, parenthesis]
        by_cases star : '*' ∈ form.pointer
        · simp [star, lastTwo?]
        · simp [star, lastTwo?, opened]
      | cons word words =>
        -- a third word stands where the parenthesis of a head would
        have third : Head.at? (returns.text ++ ' ' :: (phrase (name :: word :: words) ++ form.tail)) =
            none := by
          obtain ⟨more, start⟩ := exists_phrase_cons word words
          rw [phrase_cons name (List.cons_ne_nil word words), List.append_assoc, List.cons_append,
            at?_pair returns name (by simp [isWord_of_isSpace (show isSpace ' ' = true by decide)]),
            trimStart_space, start, List.append_assoc, dropLeading?_word, Option.bind_none]
        rw [third]
        rfl

theorem ofPiece?_text (gap : Gap) : ofPiece? (gap.text ++ form.text) = form.mistaken? := by
  rw [ofPiece?, find?_gap gap.blank, form.find?_text, head?, mistaken?]
  cases lastTwo? form.words with
  | none => rfl
  | some pair =>
    obtain ⟨returns, name⟩ := pair
    by_cases star : '*' ∈ form.pointer
    · simp [star]
    · have word : Head.returnWord ⟨returns.text, name.text, form.inside⟩ = returns.text := by
        simpa using returnWord_eq returns 0 name form.inside
      simp only [star, Option.bind_some, ↓reduceIte, Head.prototype?, word, false_or]

theorem not_mem_semicolon : ';' ∉ form.text := by
  have pointer : ';' ∉ form.pointer := by
    intro member
    have kind := form.stars ';' member
    revert kind
    decide
  have words : ';' ∉ phrase form.words := by
    intro member
    have kind := mem_phrase member
    revert kind
    decide
  have arguments : ';' ∉ form.arguments := form.not_mem_arguments (by decide)
  have name : ';' ∉ form.name.text := form.name.not_mem (by decide)
  simp [text, tail, inside, pointer, words, arguments, name]

/-- The type definition of a function pointer is one behind a further word. -/
def definition (form : FunctionPointer) : FunctionPointer := { form with
  words := ⟨"typedef".toList, by decide, by decide⟩ :: form.words
  filled := List.cons_ne_nil _ _ }

theorem text_definition : form.definition.text = "typedef ".toList ++ form.text := by
  have words : phrase form.definition.words = "typedef".toList ++ ' ' :: phrase form.words :=
    phrase_cons _ form.filled
  rw [text, words, text, List.append_assoc]
  rfl

/-- The word in front is none of the last two, or it is refused as the return word. -/
theorem mistaken?_definition : form.definition.mistaken? = form.mistaken? := by
  obtain ⟨words, filled, pointer, stars, name, arguments, chars⟩ := form
  have reserved : "typedef".toList ∈ reservedWords := by decide
  rcases words with _ | ⟨first, _ | ⟨second, others⟩⟩
  · exact absurd rfl filled
  · simp only [mistaken?, definition, lastTwo?, reserved, Option.bind_some, or_true, if_true,
      Option.bind_none]
  · rfl

theorem lastTwo?_append (front : List Word) (returns name : Word) :
    lastTwo? (front ++ [returns, name]) = some (returns, name) := by
  induction front with
  | nil => rfl
  | cons word front ih =>
    rcases front with _ | ⟨next, _ | ⟨third, front⟩⟩
    · rfl
    · exact ih
    · exact ih

theorem exists_front {words : List Word} {returns name : Word}
    (found : lastTwo? words = some (returns, name)) : ∃ front, words = front ++ [returns, name] := by
  fun_induction lastTwo? words with
  | case1 first second =>
    cases found
    exact ⟨[], rfl⟩
  | case2 word words _ ih =>
    obtain ⟨front, rfl⟩ := ih found
    exact ⟨word :: front, rfl⟩
  | case3 => cases found

end FunctionPointer

/-! ## Texts of function pointers -/

/-- Texts up to a semicolon each, behind something that no head starts in. -/
theorem extract_pieces {lead ending : Text} {pieces : List Text}
    (passed : ∀ piece, ofPiece? (lead ++ piece) = ofPiece? piece) (single : ';' ∉ lead ++ ending)
    (closed : '(' ∉ ending) (whole : ∀ piece ∈ pieces, ';' ∉ piece)
    (rest : Text) :
    extract (lead ++ (pieces.flatMap (· ++ [';']) ++ (ending ++ ';' :: rest))) =
      pieces.filterMap ofPiece? ++ extract rest := by
  simp only [List.mem_append, not_or] at single
  induction pieces generalizing lead with
  | nil =>
    have same : lead ++ (([] : List Text).flatMap (· ++ [';']) ++ (ending ++ ';' :: rest)) =
        (lead ++ ending) ++ ';' :: rest := by simp
    have nothing : ofPiece? ending = none := by
      rw [ofPiece?, find?_eq_none closed, Option.bind_none]
    rw [same, extract_append (by simp [single]), passed, nothing]
    rfl
  | cons piece pieces ih =>
    obtain ⟨here, others⟩ := List.forall_mem_cons.mp whole
    have same : lead ++ ((piece :: pieces).flatMap (· ++ [';']) ++ (ending ++ ';' :: rest)) =
        (lead ++ piece) ++ ';' :: ([] ++ (pieces.flatMap (· ++ [';']) ++ (ending ++ ';' :: rest))) := by
      simp
    -- from the first piece on, nothing stands in front of a piece
    rw [same, extract_append (by simp [single.1, here]), passed,
      ih (fun _ => rfl) others ⟨List.not_mem_nil, single.2⟩]
    cases found : ofPiece? piece <;> simp [found]

/-- A declaration of function pointers: of a single one, of a type, or of a record whose fields they
are. -/
inductive Pointers where
  | single (form : FunctionPointer)
  | definition (form : FunctionPointer)
  | typedef (kind : RecordKind) (tag : Option Word) (fields : List (Gap × FunctionPointer))
      (closing : Gap) (name : Word)
  | tagged (kind : RecordKind) (tag : Word) (fields : List (Gap × FunctionPointer)) (closing : Gap)

namespace Pointers

def bodyText (fields : List (Gap × FunctionPointer)) (closing : Gap) : Text :=
  (fields.flatMap fun field => field.1.text ++ field.2.text ++ [';']) ++ closing.text

def text : Pointers → Text
  | single form => form.text ++ [';']
  | definition form => "typedef ".toList ++ form.text ++ [';']
  | typedef kind tag fields closing name =>
    Record.typedefText kind tag (bodyText fields closing) name
  | tagged kind tag fields closing => Record.taggedText kind tag (bodyText fields closing)

def forms : Pointers → List FunctionPointer
  | single form => [form]
  | definition form => [form]
  | typedef _ _ fields _ _ => fields.map Prod.snd
  | tagged _ _ fields _ => fields.map Prod.snd

end Pointers

theorem extract_single (form : FunctionPointer) :
    extract (form.text ++ [';']) = form.mistaken?.toList := by
  have piece : ofPiece? form.text = form.mistaken? := form.ofPiece?_text .empty
  rw [extract_append form.not_mem_semicolon [], piece]
  exact List.append_nil _

/-- The fields of a record are found as they are on their own: of what stands around them nothing opens
a parenthesis. -/
theorem extract_framed {text : Text} {fields : List (Gap × FunctionPointer)} {closing : Gap}
    (framed : Record.Framed text (Pointers.bodyText fields closing)) :
    extract text = (fields.map Prod.snd).filterMap FunctionPointer.mistaken? := by
  obtain ⟨opening, ending, rfl, before, after⟩ := framed
  have whole : opening ++ '{' :: (Pointers.bodyText fields closing ++ (ending ++ [';'])) =
      (opening ++ ['{']) ++ ((fields.map fun field => field.1.text ++ field.2.text).flatMap
        (· ++ [';']) ++ ((closing.text ++ ending) ++ ';' :: [])) := by
    simp [Pointers.bodyText, List.flatMap_map]
  have passed (piece : Text) : ofPiece? ((opening ++ ['{']) ++ piece) = ofPiece? piece := by
    rw [ofPiece?, List.append_assoc, List.singleton_append,
      find?_skip (mt (before '(') (by decide)) (by decide) (by decide), ofPiece?]
  have single : ';' ∉ (opening ++ ['{']) ++ (closing.text ++ ending) := by
    have noOpening := mt (before ';') (by decide)
    have noEnding := mt (after ';') (by decide)
    simp [noOpening, noEnding, closing.not_mem (show isSpace ';' = false by decide)]
  have closed : '(' ∉ closing.text ++ ending := by
    have noEnding := mt (after '(') (by decide)
    simp [noEnding, closing.not_mem (show isSpace '(' = false by decide)]
  have pieces : ∀ piece ∈ fields.map fun field => field.1.text ++ field.2.text, ';' ∉ piece := by
    intro piece member
    obtain ⟨field, -, rfl⟩ := List.mem_map.mp member
    simp [field.1.not_mem (show isSpace ';' = false by decide), field.2.not_mem_semicolon]
  rw [whole, extract_pieces passed single closed pieces, List.filterMap_map, List.filterMap_map]
  have nothing : extract [] = [] := rfl
  rw [nothing, List.append_nil]
  exact List.filterMap_congr fun field _ => field.2.ofPiece?_text field.1

theorem FunctionPointer.mistaken?_eq_none_iff (form : FunctionPointer) :
    form.mistaken? = none ↔ '*' ∈ form.pointer ∨
      ∀ front returns name, form.words = front ++ [returns, name] →
        name.text ∈ Parameter.typeWords ∨ name.text ∈ reservedWords ∨
          returns.text ∈ reservedWords := by
  rw [mistaken?]
  cases found : lastTwo? form.words with
  | none =>
    refine iff_of_true rfl (Or.inr fun front returns name words => ?_)
    rw [words, lastTwo?_append] at found
    cases found
  | some pair =>
    obtain ⟨returns, name⟩ := pair
    obtain ⟨front, words⟩ := exists_front found
    rw [Option.bind_some, ite_eq_left_iff]
    simp only [reduceCtorEq, imp_false, not_not]
    refine or_congr_right ⟨fun refused others first second same => ?_, fun all => all front _ _ words⟩
    -- the last two words are what they are
    rw [same, lastTwo?_append] at found
    cases found
    exact refused

/-- A declaration of function pointers declares exactly the prototypes that these are mistaken for. It
declares none if each of them has stars in front of its parenthesis, or less than two words there, or
one of the last two words is a word that cannot stand in a prototype. -/
theorem extract_pointers (declaration : Pointers) :
    extract declaration.text = declaration.forms.filterMap FunctionPointer.mistaken? ∧
    (extract declaration.text = [] ↔ ∀ form ∈ declaration.forms, '*' ∈ form.pointer ∨
      ∀ front returns name, form.words = front ++ [returns, name] →
        name.text ∈ Parameter.typeWords ∨ name.text ∈ reservedWords ∨
          returns.text ∈ reservedWords) := by
  have declared : extract declaration.text =
      declaration.forms.filterMap FunctionPointer.mistaken? := by
    cases declaration with
    | single form =>
      refine (extract_single form).trans ?_
      cases found : form.mistaken? <;> simp [Pointers.forms, found]
    | definition form =>
      have definition := extract_single form.definition
      rw [form.text_definition, form.mistaken?_definition] at definition
      refine definition.trans ?_
      cases found : form.mistaken? <;> simp [Pointers.forms, found]
    | typedef kind tag fields closing name =>
      exact extract_framed (Record.framed_typedefText kind tag _ name)
    | tagged kind tag fields closing =>
      exact extract_framed (Record.framed_taggedText kind tag _)
  refine ⟨declared, ?_⟩
  rw [declared, List.filterMap_eq_nil_iff]
  exact forall₂_congr fun form _ => form.mistaken?_eq_none_iff

/-- A type word in front of the name of a type. -/
theorem extract_pointers_qualified :
    extract "const size_t (*length)(void);".toList =
      [⟨"size_t".toList, "const".toList, [⟨"*length)(void".toList, none⟩]⟩] := by
  decide

end CHeader.Prototype
