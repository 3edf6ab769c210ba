import CHeader.Proofs.Parameter.Behind
import CHeader.Proofs.Parameter.Decomposition
import CHeader.Proofs.Record

/-!
# Members of records

A member is declared behind a type and stars, as a name with dimensions, a function pointer or a bit
field. It is read under its name, but for a bit field: all in front of the colon is taken for part of a
type, so that any name is read off what stands behind the colon. The type that is read begins with the
words of the type that was written.
-/
namespace CHeader.Record

open Text Parameter

/-! ## How members are written -/

/-- A word that does not start with a digit. -/
structure Identifier extends Word where
  letter : ∀ c ∈ text.head?, isDigit c = false

/-- A text that is cut neither at a comma nor at a semicolon. -/
structure Uncuttable (s : Text) : Prop where
  level : Parameter.Level s
  whole : Inseparable s
  single : ';' ∉ s

/-- A dimension, with the spaces in front of it. -/
structure Extent where
  spaces : Nat
  size : Text
  unclosed : ']' ∉ size
  uncuttable : Uncuttable size

def Extent.text (extent : Extent) : Text :=
  List.replicate extent.spaces ' ' ++ '[' :: (extent.size ++ [']'])

/-- What is declared behind a type and its stars: a name with dimensions, a pointer to a function, or a
bit field with all that follows its colon. -/
inductive Member where
  | sized (name : Identifier) (extents : List Extent)
  | callback (name : Identifier) (arguments : Text) (balanced : Balanced arguments)
      (oneLine : '\n' ∉ arguments) (single : ';' ∉ arguments)
  | bits (name : Identifier) (spaces : Nat) (width : Text) (ends : Ends width)
      (uncuttable : Uncuttable width) (plain : '[' ∉ width ∧ '\n' ∉ width)

namespace Member

def name : Member → Identifier
  | sized name _ => name
  | callback name .. => name
  | bits name .. => name

def text : Member → Text
  | sized name extents => name.text ++ extents.flatMap Extent.text
  | callback name arguments .. => '(' :: '*' :: (name.text ++ ')' :: '(' :: (arguments ++ [')']))
  | bits name spaces width .. => name.text ++ (List.replicate spaces ' ' ++ ':' :: width)

/-- The name that a member is reported under. That of a bit field is read off its colon and width. -/
def reported : Member → Option Text
  | sized name _ => if name.text ∈ typeWords then none else some name.text
  | callback name .. => some name.text
  | bits _ _ width .. => (parse (':' :: width)).name

/-- No name is read off the width of a bit field. -/
def Unread : Member → Prop
  | bits _ _ width .. => (parse (':' :: width)).name = none
  | _ => True

end Member

/-- The words of a type. They are no tag word, behind which a tag would be missing. -/
structure Base where
  words : List Word
  filled : words ≠ []
  notTag : phrase words ∉ tagWords

def Base.text (base : Base) : Text := phrase base.words

/-- Stars, with spaces and the qualifiers of pointers between them. -/
structure Stars where
  text : Text
  chars : ∀ c ∈ text, IsTypeChar c
  opens : ∀ c ∈ text.head?, c = ' ' ∨ c = '*'
  closes : ∀ c ∈ text.getLast?, c = ' ' ∨ c = '*'

/-! ## Dimensions -/

theorem bracketed_of_dimensions? {s sizes : Text} (found : dimensions? false s = some sizes) :
    Bracketed sizes := by
  have opens : ∀ c ∈ sizes.head?, c = '[' := by
    induction s with
    | nil =>
      cases found
      simp
    | cons c rest ih =>
      rw [dimensions?] at found
      split at found
      next bracket =>
        obtain ⟨later, -, rfl⟩ := Option.map_eq_some_iff.mp found
        simp [bracket]
      next =>
        split at found
        · exact ih found
        · cases found
  rcases closes_of_dimensions? found with ⟨-, empty⟩ | closes
  · exact Or.inl empty
  · obtain ⟨before, rfl⟩ := List.getLast?_eq_some_iff.mp closes
    rcases before with _ | ⟨c, inside⟩
    · exact absurd (opens ']' rfl) (by decide)
    · obtain rfl := opens c rfl
      refine Or.inr ⟨inside, rfl, fun member => ?_⟩
      cases isSpace_of_dimensions? found '\n' (by simp [member])

theorem dimensions?_spaces (spaces : Nat) (rest : Text) :
    dimensions? false (List.replicate spaces ' ' ++ rest) = dimensions? false rest := by
  have blank : isSpace ' ' = true := by decide
  induction spaces with
  | zero => rfl
  | succ spaces ih =>
    rw [List.replicate_succ, List.cons_append, dimensions?, if_neg (by decide), if_pos blank, ih]

theorem exists_dimensions (extents : List Extent) :
    ∃ sizes, dimensions? false (extents.flatMap Extent.text) = some sizes := by
  induction extents with
  | nil => exact ⟨[], rfl⟩
  | cons extent extents ih =>
    obtain ⟨sizes, read⟩ := ih
    have whole : (extent :: extents).flatMap Extent.text = List.replicate extent.spaces ' ' ++
        '[' :: (extent.size ++ ']' :: extents.flatMap Extent.text) := by simp [Extent.text]
    rw [whole, dimensions?_spaces, dimensions?, if_pos rfl, dimensions?_inside extent.unclosed, read]
    exact ⟨_, rfl⟩

theorem extents_stop (extents : List Extent) :
    ∀ c ∈ (extents.flatMap Extent.text).head?, isWord c = false := by
  intro c first
  cases extents with
  | nil => cases first
  | cons extent extents =>
    rw [List.flatMap_cons, Extent.text] at first
    cases count : extent.spaces with
    | zero =>
      rw [count] at first
      cases first
      decide
    | succ more =>
      rw [count] at first
      cases first
      decide

theorem exists_extents_concat {extents : List Extent} (filled : extents ≠ []) :
    ∃ before, extents.flatMap Extent.text = before ++ [']'] := by
  obtain ⟨front, last, rfl⟩ := List.eq_nil_or_concat extents |>.resolve_left filled
  exact ⟨front.flatMap Extent.text ++ (List.replicate last.spaces ' ' ++ '[' :: last.size),
    by simp [Extent.text]⟩

/-! ## What is not cut -/

theorem uncuttable_of_not_mem {s : Text} (absent : ∀ sign ∈ ['(', ')', ',', ';'], sign ∉ s) :
    Uncuttable s where
  level := level_iff.mpr (depth_eq_zero (absent '(' (by decide)) (absent ')' (by decide)))
  whole := inseparable_iff.mpr (uncut_of_not_mem (absent ',' (by decide)))
  single := absent ';' (by decide)

theorem Uncuttable.append {s t : Text} (first : Uncuttable s) (second : Uncuttable t) :
    Uncuttable (s ++ t) where
  level := by
    rw [level_iff, depth_append, level_iff.mp first.level, level_iff.mp second.level, Int.add_zero]
  whole := by
    rw [inseparable_iff]
    apply (inseparable_iff.mp first.whole).append
    rw [level_iff.mp first.level, Int.add_zero]
    exact inseparable_iff.mp second.whole
  single := by simp [first.single, second.single]

theorem uncuttable_typeChars {s : Text} (chars : ∀ c ∈ s, IsTypeChar c) : Uncuttable s := by
  apply uncuttable_of_not_mem
  intro sign member
  apply not_mem_of_typeChars chars
  revert sign
  decide

theorem uncuttable_gap (gap : Gap) : Uncuttable gap.text := by
  apply uncuttable_of_not_mem
  intro sign member
  apply gap.not_mem
  revert sign
  decide

theorem uncuttable_extents (extents : List Extent) : Uncuttable (extents.flatMap Extent.text) := by
  induction extents with
  | nil => exact uncuttable_of_not_mem (by simp)
  | cons extent extents ih =>
    have spaces : Uncuttable (List.replicate extent.spaces ' ') :=
      uncuttable_typeChars fun c member => Or.inr (Or.inl (List.eq_of_mem_replicate member))
    have opening : Uncuttable ['['] := uncuttable_of_not_mem (by decide)
    have closing : Uncuttable [']'] := uncuttable_of_not_mem (by decide)
    exact (spaces.append (opening.append (extent.uncuttable.append closing))).append ih

namespace Member

theorem uncuttable (member : Member) : Uncuttable member.text := by
  have word (name : Identifier) : Uncuttable name.text :=
    uncuttable_typeChars fun c inside => Or.inl (name.chars c inside)
  cases member with
  | sized name extents => exact (word name).append (uncuttable_extents extents)
  | callback name arguments balanced oneLine single =>
    refine ⟨level_iff.mpr ?_, inseparable_iff.mpr (uncut_pointer name.toWord balanced), ?_⟩
    · simp [text, depth_word, balanced.closed, nesting]
    · simp [text, name.not_mem (show isWord ';' = false by decide), single]
  | bits name spaces width ends uncuttable plain =>
    have blank : Uncuttable (List.replicate spaces ' ') :=
      uncuttable_typeChars fun c inside => Or.inr (Or.inl (List.eq_of_mem_replicate inside))
    have colon : Uncuttable [':'] := uncuttable_of_not_mem (by decide)
    exact (word name).append (blank.append (colon.append uncuttable))

theorem append_bits (lead : Text) (name : Identifier) (spaces : Nat) {width : Text}
    (ends : Ends width) (uncuttable : Uncuttable width) (plain : '[' ∉ width ∧ '\n' ∉ width) :
    lead ++ (bits name spaces width ends uncuttable plain).text =
      lead ++ (name.text ++ List.replicate spaces ' ') ++ ':' :: width := by
  simp [text]

theorem starts (member : Member) : Starts member.text := by
  cases member with
  | sized name extents => exact name.starts.append _
  | callback name arguments balanced oneLine single => exact starts_cons (by decide) _
  | bits name spaces width ends uncuttable plain => exact name.starts.append _

theorem ends (member : Member) : Ends member.text := by
  cases member with
  | sized name extents =>
    by_cases bare : extents = []
    · subst bare
      simpa [text] using name.ends
    · obtain ⟨before, whole⟩ := exists_extents_concat bare
      rw [text, whole]
      exact (ends_concat (by decide) before).append _
  | callback name arguments balanced oneLine single =>
    have whole : '(' :: '*' :: (name.text ++ ')' :: '(' :: (arguments ++ [')'])) =
        '(' :: '*' :: (name.text ++ ')' :: '(' :: arguments) ++ [')'] := by simp
    rw [text, whole]
    exact ends_concat (by decide) _
  | bits name spaces width ends uncuttable plain =>
    exact ((ends.append [':']).append _).append _

end Member

/-! ## Types that members are read behind -/

/-- Text behind the words of a type: a blank or a star separates it, and it has no parentheses and no
dimensions, on one line. -/
structure Continuation (rest : Text) : Prop where
  opens : ∀ c ∈ rest.head?, c = ' ' ∨ c = '*'
  unopened : '(' ∉ rest ∧ '[' ∉ rest
  oneLine : '\n' ∉ rest

/-- What is read as the type of a member begins with the words of its type. In a bit field more than
stars may follow. -/
def Extends (base : Base) (s : Text) : Prop := ∃ rest, s = base.text ++ rest ∧ Continuation rest

/-- A text that a member is read behind. -/
structure Ahead (base : Base) (lead : Text) : Prop where
  longer : Extends base lead
  separates : ∃ c ∈ lead.getLast?, c = ' ' ∨ c = '*'

variable {base : Base} {lead s sizes : Text}

theorem kept_of_isWord {c : Char} (word : isWord c = true) : (c == ' ' || c == '*') = false := by
  simp [ne_of_isWord word (show isWord ' ' = false by decide),
    ne_of_isWord word (show isWord '*' = false by decide)]

theorem Continuation.append {rest more : Text} (continuation : Continuation rest) (filled : rest ≠ [])
    (unopened : '(' ∉ more ∧ '[' ∉ more) (oneLine : '\n' ∉ more) : Continuation (rest ++ more) where
  opens := by
    rw [List.head?_append_of_ne_nil rest filled]
    exact continuation.opens
  unopened := by simp [continuation.unopened, unopened]
  oneLine := by simp [continuation.oneLine, oneLine]

theorem Stars.continuation (stars : Stars) : Continuation stars.text where
  opens := stars.opens
  unopened :=
    ⟨not_mem_of_typeChars stars.chars (by decide), not_mem_of_typeChars stars.chars (by decide)⟩
  oneLine := not_mem_of_typeChars stars.chars (by decide)

theorem Stars.separates (stars : Stars) (filled : stars.text ≠ []) (front : Text) :
    ∃ c ∈ (front ++ stars.text).getLast?, c = ' ' ∨ c = '*' := by
  obtain ⟨c, last⟩ := Option.ne_none_iff_exists'.mp (mt List.getLast?_eq_none_iff.mp filled)
  rw [List.getLast?_append_of_ne_nil front filled]
  exact ⟨c, last, stars.closes c last⟩

theorem Base.not_mem (base : Base) {sign : Char} (apart : isWord sign = false ∧ sign ≠ ' ') :
    sign ∉ base.text := by
  intro member
  rcases mem_phrase member with word | space
  · exact ne_of_isWord word apart.1 rfl
  · exact apart.2 space

/-- A type ends in a word, which no stars and no blank space belong to. -/
theorem Base.kept (base : Base) {p : Char → Bool} (kept : ∀ c, isWord c = true → p c = false) :
    ∃ c ∈ base.text.getLast?, p c = false := by
  obtain ⟨c, last, solid⟩ := phrase_ends base.filled
  refine ⟨c, last, kept c ?_⟩
  rcases mem_phrase (List.mem_of_getLast? last) with word | rfl
  · exact word
  · cases solid

namespace Extends

theorem starts (longer : Extends base s) : Starts s := by
  obtain ⟨rest, rfl, -⟩ := longer
  exact (phrase_starts base.filled).append rest

theorem not_mem (longer : Extends base s) : ('(' ∉ s ∧ '[' ∉ s) ∧ '\n' ∉ s := by
  obtain ⟨rest, rfl, -, unopened, oneLine⟩ := longer
  simp [base.not_mem (show isWord '(' = false ∧ '(' ≠ ' ' by decide),
    base.not_mem (show isWord '[' = false ∧ '[' ≠ ' ' by decide),
    base.not_mem (show isWord '\n' = false ∧ '\n' ≠ ' ' by decide), unopened, oneLine]

/-- The words are kept when blanks or stars are dropped at the end. -/
theorem dropEndWhile {p : Char → Bool} (kept : ∀ c, isWord c = true → p c = false)
    (longer : Extends base s) : Extends base (Text.dropEndWhile p s) := by
  obtain ⟨rest, rfl, continuation⟩ := longer
  refine ⟨Text.dropEndWhile p rest, dropEndWhile_append_of_last (base.kept kept) rest, ?_⟩
  obtain ⟨dropped, whole⟩ := prefix_dropEndWhile p rest
  generalize Text.dropEndWhile p rest = shorter at whole
  subst whole
  obtain ⟨opens, unopened, oneLine⟩ := continuation
  simp only [List.mem_append, not_or] at unopened oneLine
  -- what is left of the text behind the words, if anything, begins as that text did
  refine ⟨fun c first => opens c ?_, ⟨unopened.1.1, unopened.2.1⟩, oneLine.1⟩
  rw [List.head?_append, Option.mem_def.mp first]
  rfl

theorem trim (longer : Extends base s) : Extends base (Text.trim s) := by
  rw [Text.trim, longer.starts.trimStart]
  refine longer.dropEndWhile fun c word => ?_
  rw [isSpace_of_isWord word]

/-- Longer than its words, the type has a blank or a star in it, as no tag word has. -/
theorem trim_not_tag (longer : Extends base s) : Text.trim s ∉ tagWords := by
  obtain ⟨rest, whole, opens, -⟩ := longer.trim
  rw [whole]
  cases rest with
  | nil =>
    rw [List.append_nil]
    exact base.notTag
  | cons c rest =>
    intro tag
    have signs : ∀ word ∈ tagWords, ' ' ∉ word ∧ '*' ∉ word := by decide
    obtain ⟨blank, star⟩ := signs _ tag
    rcases opens c rfl with rfl | rfl
    · exact blank (by simp)
    · exact star (by simp)

theorem baseType (longer : Extends base s) (bracketed : Bracketed sizes) :
    Extends base (Record.baseType (Text.trim s ++ sizes)) := by
  -- the dimensions go first, and then the stars
  rw [Record.baseType, dropDimensions_append longer.trim.not_mem.1.2 bracketed]
  exact longer.trim.dropEndWhile fun c word => kept_of_isWord word

/-- Further members are read behind a blank and their own stars. -/
theorem ahead (longer : Extends base s) (stars : Stars) : Ahead base (s ++ ' ' :: stars.text) where
  longer := by
    obtain ⟨rest, rfl, continuation⟩ := longer
    refine ⟨rest ++ ' ' :: stars.text, by simp, ?_, ?_, ?_⟩
    · intro c first
      cases rest with
      | nil =>
        cases first
        exact Or.inl rfl
      | cons d rest => exact continuation.opens c first
    · simp [continuation.unopened, stars.continuation.unopened]
    · simp [continuation.oneLine, stars.continuation.oneLine]
  separates := by
    by_cases bare : stars.text = []
    · exact ⟨' ', by simp [bare], Or.inl rfl⟩
    · rw [List.append_cons]
      exact stars.separates bare _

end Extends

namespace Ahead

theorem front (ahead : Ahead base lead) : Front lead := by
  obtain ⟨longer, c, last, separates⟩ := ahead
  refine ⟨longer.not_mem.1.2, c, last, ?_⟩
  rcases separates with rfl | rfl <;> decide

/-- A blank or a star belongs to what stands behind the words. -/
theorem append (ahead : Ahead base lead) {more : Text} (unopened : '(' ∉ more ∧ '[' ∉ more)
    (oneLine : '\n' ∉ more) : Extends base (lead ++ more) := by
  obtain ⟨⟨rest, rfl, continuation⟩, c, last, separates⟩ := ahead
  refine ⟨rest ++ more, List.append_assoc .., continuation.append ?_ unopened oneLine⟩
  -- with nothing behind the words the text would end in a word
  rintro rfl
  rw [List.append_nil] at last
  obtain ⟨d, ending, word⟩ := base.kept fun c word => kept_of_isWord word
  cases Option.mem_unique last ending
  rcases separates with rfl | rfl <;> cases word

/-! ### Members behind a type -/

variable (ahead : Ahead base lead)
include ahead

theorem starts (member : Member) : Starts (lead ++ member.text) := ahead.longer.starts.append _

theorem trim_append (member : Member) : Text.trim (lead ++ member.text) = lead ++ member.text :=
  trim_eq_self (ahead.starts member) (member.ends.append lead)

theorem parse_sized (name : Identifier) (extents : List Extent) :
    ∃ sizes, Bracketed sizes ∧ parse (lead ++ (Member.sized name extents).text) =
      if name.text ∈ typeWords then ⟨lead ++ (Member.sized name extents).text, none⟩
      else ⟨Text.trim lead ++ sizes, some name.text⟩ := by
  obtain ⟨sizes, dimensions⟩ := exists_dimensions extents
  refine ⟨sizes, bracketed_of_dimensions? dimensions, ?_⟩
  have declarator : declarator? (name.text ++ extents.flatMap Extent.text) =
      some (name.text, sizes) := by
    simp only [declarator?, name.word?_append (extents_stop extents), Option.bind_eq_bind,
      Option.bind_some, dimensions, Option.pure_def]
  -- the last character is a bracket, or belongs to the name
  have plain : functionPointer? (lead ++ (name.text ++ extents.flatMap Extent.text)) = none := by
    by_cases bare : extents = []
    · subst bare
      simpa using functionPointer?_word lead name.toWord
    · obtain ⟨before, whole⟩ := exists_extents_concat bare
      rw [Option.eq_none_iff_forall_ne_some]
      rintro ⟨returns, pointed, arguments⟩ found
      have closing := functionPointer?_getLast? found
      simp [whole] at closing
  have declared := ahead.front.declaration? ahead.longer.not_mem.2 name.toWord declarator
  rw [parse, ahead.trim_append]
  simp only [Member.text, plain, declared, ahead.longer.trim_not_tag, or_false]

theorem parse_callback (name : Identifier) {arguments : Text} (balanced : Balanced arguments)
    (oneLine : '\n' ∉ arguments) (single : ';' ∉ arguments) :
    (parse (lead ++ (Member.callback name arguments balanced oneLine single).text)).name =
      some name.text := by
  -- the shortest type that is returned has no blank space at its end
  obtain ⟨gap, whole⟩ := exists_gap_trimEnd lead
  have trimmed : Text.trim lead = trimEnd lead := by
    rw [Text.trim, ahead.longer.starts.trimStart]
  have longer : Extends base (trimEnd lead) := trimmed ▸ ahead.longer.trim
  have ends : Ends (trimEnd lead) := by
    rw [← trimmed]
    exact ends_trim (trimmed ▸ longer.starts.ne_nil)
  have blank : trimStart (gap.text ++ (Member.callback name arguments balanced oneLine single).text) =
      trimStart (pointerEnd name.text arguments) := trimStart_append_of_blank gap.blank _
  have closes : pointerTail? (gap.text ++
      (Member.callback name arguments balanced oneLine single).text) =
        some (name.text, arguments) := by
    rw [pointerTail?, blank, ← pointerTail?]
    exact pointerTail?_pointerEnd name.toWord oneLine
  have pointer := functionPointer?_append longer.not_mem.1.1 longer.not_mem.2 ends closes
  rw [← List.append_assoc, ← whole] at pointer
  rw [parse, ahead.trim_append]
  simp only [pointer]

/-- The name of a bit field is part of the type that is read. -/
theorem append_name (name : Identifier) {more : Text} (unopened : '(' ∉ more ∧ '[' ∉ more)
    (oneLine : '\n' ∉ more) : Extends base (lead ++ (name.text ++ more)) := by
  apply ahead.append
  · simp [name.not_mem (show isWord '(' = false by decide),
      name.not_mem (show isWord '[' = false by decide), unopened]
  · simp [name.not_mem (show isWord '\n' = false by decide), oneLine]

theorem before_colon (name : Identifier) (spaces : Nat) :
    Extends base (lead ++ (name.text ++ List.replicate spaces ' ')) :=
  ahead.append_name name (by simp) (by simp)

theorem parse_name (member : Member) : (parse (lead ++ member.text)).name = member.reported := by
  cases member with
  | sized name extents =>
    obtain ⟨sizes, -, read⟩ := ahead.parse_sized name extents
    rw [read, Member.reported]
    split <;> rfl
  | callback name arguments balanced oneLine single =>
    exact ahead.parse_callback name balanced oneLine single
  | bits name spaces width ends uncuttable plain =>
    have longer := ahead.before_colon name spaces
    rw [Member.append_bits]
    exact parse_colon longer.starts longer.not_mem.1 longer.not_mem.2 ends

/-- The type that a bit field is read with runs over its colon. -/
theorem baseType_bits (name : Identifier) (spaces : Nat) {width : Text} (ends : Ends width)
    (unopened : '(' ∉ width ∧ '[' ∉ width) (oneLine : '\n' ∉ width)
    (read : (parse (lead ++ (name.text ++ List.replicate spaces ' ') ++ ':' :: width)).name ≠ none) :
    Extends base (baseType
      (parse (lead ++ (name.text ++ List.replicate spaces ' ') ++ ':' :: width)).type) := by
  have longer := ahead.before_colon name spaces
  have trimmed := trim_eq_self (longer.starts.append (':' :: width)) ((ends.append [':']).append _)
  have absent : '(' ∉ lead ++ (name.text ++ List.replicate spaces ' ') ++ ':' :: width := by
    rw [List.mem_append, not_or]
    exact ⟨longer.not_mem.1.1, by simpa using unopened.1⟩
  rcases parse_eq_or (functionPointer?_eq_none (trimmed.symm ▸ absent)) with
    unnamed | ⟨type, found, sizes, declared, -, -, named⟩
  · rw [unnamed] at read
    exact absurd rfl read
  · rw [trimmed] at declared
    obtain ⟨behind, _, rfl, front, dimensions⟩ := exists_behind longer.not_mem.1.2 longer.not_mem.2
      (show isSpace ':' = false by decide) (by decide) (by decide) declared
    have inside {sign : Char} (other : sign ≠ ':') (outside : sign ∉ width) : sign ∉ behind :=
      fun member => (List.mem_cons.mp (front.subset member)).elim other outside
    rw [named]
    refine Extends.baseType ?_ (bracketed_of_dimensions? dimensions)
    rw [List.append_assoc, List.append_assoc]
    apply ahead.append_name
    · simp [inside (show '(' ≠ ':' by decide) unopened.1,
        inside (show '[' ≠ ':' by decide) unopened.2]
    · simp [inside (show '\n' ≠ ':' by decide) oneLine]

/-- The type that a member without parentheses is read with still begins with the words. -/
theorem baseType_parse {member : Member} (plain : '(' ∉ member.text)
    (read : member.reported ≠ none) : Extends base (baseType (parse (lead ++ member.text)).type) := by
  cases member with
  | sized name extents =>
    obtain ⟨sizes, bracketed, same⟩ := ahead.parse_sized name extents
    have notType : name.text ∉ typeWords := by
      intro refused
      rw [Member.reported, if_pos refused] at read
      exact read rfl
    rw [same, if_neg notType]
    exact ahead.longer.baseType bracketed
  | callback name arguments balanced oneLine single => simp [Member.text] at plain
  | bits name spaces width ends uncuttable unsized =>
    have unopened : '(' ∉ width := fun inside => plain (by simp [Member.text, inside])
    rw [← ahead.parse_name, Member.append_bits] at read
    rw [Member.append_bits]
    exact ahead.baseType_bits name spaces ends ⟨unopened, unsized.1⟩ unsized.2 read

end Ahead

end CHeader.Record
