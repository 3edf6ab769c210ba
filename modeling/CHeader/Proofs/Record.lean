import CHeader.Record
import CHeader.Proofs.Parameter.Written

/-!
# Written records

A record is written as a type definition with a name after its braces, or under its tag. A field is
a function pointer, or a base type with declarators that each have their own stars and dimensions.
Extraction from a text of written records gives back what each of them stands for, in order.

The first declarator of a field is read together with the base type. The others are read after the
base type that is left of the first field's type without its dimensions and stars.
-/
namespace CHeader.Record

open Text Parameter

/-! ## Declarators -/

/-- A declarator of a field: stars, a name and dimensions. -/
structure Declarator where
  stars : Nat
  name : Word
  sizes : List Size
  notType : name.text ∉ typeWords

namespace Declarator

def text (declarator : Declarator) : Text :=
  List.replicate declarator.stars '*' ++ (declarator.name.text ++ sizesText declarator.sizes)

/-- The stars after a base type, with the space before them. -/
def pointer (declarator : Declarator) : Text :=
  if declarator.stars = 0 then [] else ' ' :: List.replicate declarator.stars '*'

def field (base : Text) (declarator : Declarator) : Parameter :=
  ⟨base ++ declarator.pointer ++ sizesText declarator.sizes, some declarator.name.text⟩

/-- The first star has one space before it, the others have none. -/
def spaces (declarator : Declarator) : List Nat :=
  match declarator.stars with
  | 0 => []
  | more + 1 => 1 :: List.replicate more 0

theorem starsText_spaces (declarator : Declarator) :
    starsText declarator.spaces = declarator.pointer := by
  have bare (count : Nat) : starsText (List.replicate count 0) = List.replicate count '*' := by
    induction count with
    | zero => rfl
    | succ count ih =>
      rw [List.replicate_succ, List.replicate_succ, ← ih]
      rfl
  cases count : declarator.stars with
  | zero => simp [spaces, pointer, count, starsText]
  | succ more =>
    rw [spaces, pointer, count, if_neg (Nat.succ_ne_zero more), List.replicate_succ, ← bare more]
    rfl

theorem plain (declarator : Declarator) : ∀ c ∈ declarator.text, IsPlain c := by
  intro c member
  rcases List.mem_append.mp member with star | rest
  · exact Or.inl (Or.inr (Or.inr (List.eq_of_mem_replicate star)))
  · exact isPlain_declarator _ _ c rest

theorem ends (declarator : Declarator) : Ends declarator.text :=
  (declarator_ends declarator.name declarator.sizes).append _

theorem starts (declarator : Declarator) : Starts declarator.text := by
  cases count : declarator.stars with
  | zero =>
    rw [text, count]
    exact declarator.name.starts.append _
  | succ more =>
    rw [text, count]
    exact starts_cons (by decide) _

theorem piece (declarator : Declarator) : Piece declarator.text :=
  piece_of_plain declarator.starts declarator.ends declarator.plain

end Declarator

/-! ## Declarations -/

/-- A base type with declarators. -/
structure Declaration where
  base : List Word
  filled : base ≠ []
  notTag : phrase base ∉ tagWords
  first : Declarator
  others : List Declarator

namespace Declaration

def text (declaration : Declaration) : Text :=
  phrase declaration.base ++ ' ' ::
    joinWith [',', ' '] ((declaration.first :: declaration.others).map Declarator.text)

def fields (declaration : Declaration) : List Parameter :=
  (declaration.first :: declaration.others).map (·.field (phrase declaration.base))

variable (declaration : Declaration)

/-- A declarator after the base type, as a type with a name. -/
def named (declarator : Declarator) : Named where
  type := ⟨declaration.base, declaration.filled, declarator.spaces⟩
  spaced := decide (declarator.stars = 0)
  name := declarator.name
  sizes := declarator.sizes
  apart := by
    intro plain
    cases count : declarator.stars with
    | zero => rfl
    | succ more => simp [Declarator.spaces, count] at plain
  notTag := by
    rw [TypeText.text, declarator.starsText_spaces, Declarator.pointer]
    split
    · simpa using declaration.notTag
    · -- with a star there is a space, and no tag word has one
      intro tag
      have space : ∀ word ∈ tagWords, ' ' ∉ word := by decide
      exact space _ tag (by simp)
  notType := declarator.notType

theorem named_text (declarator : Declarator) :
    (declaration.named declarator).text = phrase declaration.base ++ ' ' :: declarator.text := by
  have before : (declaration.named declarator).before ++ (declarator.name.text ++
      sizesText declarator.sizes) = phrase declaration.base ++ ' ' :: declarator.text := by
    cases count : declarator.stars with
    | zero =>
      simp [Named.before, named, TypeText.text, Declarator.starsText_spaces, Declarator.pointer,
        Declarator.text, count]
    | succ more =>
      simp [Named.before, named, TypeText.text, Declarator.starsText_spaces, Declarator.pointer,
        Declarator.text, count]
  exact before

/-- A declarator after the base type is read as its field. -/
theorem parse_declarator (declarator : Declarator) :
    parse (phrase declaration.base ++ ' ' :: declarator.text) =
      declarator.field (phrase declaration.base) := by
  rw [← declaration.named_text, (declaration.named declarator).parse_text, Named.parameter,
    TypeText.text]
  simp only [named, declarator.starsText_spaces, Declarator.field]

def pieces : List Text :=
  (phrase declaration.base ++ ' ' :: declaration.first.text) ::
    declaration.others.map Declarator.text

theorem text_eq_joinWith : declaration.text = joinWith [',', ' '] declaration.pieces := by
  rw [text, List.map_cons, ← List.singleton_append, ← List.append_assoc, append_joinWith_cons,
    List.append_assoc]
  rfl

theorem plain_first :
    ∀ c ∈ phrase declaration.base ++ ' ' :: declaration.first.text, IsPlain c := by
  intro c member
  rcases List.mem_append.mp member with base | rest
  · exact Or.inl ((mem_phrase base).imp_right Or.inl)
  · rcases List.mem_cons.mp rest with space | inside
    · exact Or.inl (Or.inr (Or.inl space))
    · exact declaration.first.plain c inside

theorem piece_pieces : ∀ piece ∈ declaration.pieces, Piece piece := by
  intro piece member
  rcases List.mem_cons.mp member with rfl | later
  · exact piece_of_plain ((phrase_starts declaration.filled).append _)
      ((declaration.first.ends.append [' ']).append _) declaration.plain_first
  · obtain ⟨declarator, -, rfl⟩ := List.mem_map.mp later
    exact declarator.piece

theorem trim_text : trim declaration.text = declaration.text := by
  rw [text_eq_joinWith]
  exact trim_joinWith (List.cons_ne_nil _ _) declaration.piece_pieces

theorem not_mem {sign : Char} (apart : isWord sign = false ∧ sign ∉ [' ', '*', '[', ']', '.', ',']) :
    sign ∉ declaration.text := by
  simp only [List.mem_cons, List.not_mem_nil, or_false, not_or] at apart
  have others : isWord sign = false ∧ sign ∉ [' ', '*', '[', ']', '.'] := by simp [apart]
  rw [text_eq_joinWith]
  apply not_mem_joinWith (by simp [apart])
  intro piece member
  rcases List.mem_cons.mp member with rfl | later
  · exact not_mem_of_plain declaration.plain_first others
  · obtain ⟨declarator, -, rfl⟩ := List.mem_map.mp later
    exact not_mem_of_plain declarator.plain others

end Declaration

/-! ## The base type -/

/-- Nothing, or what runs from an opening bracket to a closing one on a line. -/
def Bracketed (sizes : Text) : Prop :=
  sizes = [] ∨ ∃ inside, sizes = '[' :: (inside ++ [']']) ∧ '\n' ∉ inside

theorem bracketed_sizesText (sizes : List Size) : Bracketed (sizesText sizes) := by
  cases sizes with
  | nil => exact Or.inl rfl
  | cons size sizes =>
    obtain ⟨inside, whole⟩ := sizesText_cons size sizes
    refine Or.inr ⟨inside, whole, fun member => ?_⟩
    have inside : '\n' ∈ sizesText (size :: sizes) := by simp [whole, member]
    have sign := mem_sizesText inside
    revert sign
    decide

/-- From the first bracket on everything goes, since the last one closes. -/
theorem dropDimensions_append {type sizes : Text} (absent : '[' ∉ type) (bracketed : Bracketed sizes) :
    dropDimensions (type ++ sizes) = type := by
  induction type with
  | nil =>
    rcases bracketed with rfl | ⟨inside, rfl, oneLine⟩
    · rfl
    · rw [List.nil_append, dropDimensions, if_pos ⟨rfl, by simp, by simpa using oneLine⟩]
  | cons c type ih =>
    simp only [List.mem_cons, not_or] at absent
    rw [List.cons_append, dropDimensions, if_neg (by simp [Ne.symm absent.1]), ih absent.2]

theorem Declarator.pointer_chars (declarator : Declarator) :
    ∀ c ∈ declarator.pointer, c = ' ' ∨ c = '*' := by
  intro c member
  rw [pointer] at member
  split at member
  · cases member
  · exact (List.mem_cons.mp member).imp_right List.eq_of_mem_replicate

/-- Whatever a declarator adds to the base type is taken off again. -/
theorem Declarator.baseType_field (declarator : Declarator) {base : List Word}
    (filled : base ≠ []) : baseType (declarator.field (phrase base)).type = phrase base := by
  have bare : '[' ∉ phrase base ++ declarator.pointer := by
    intro member
    rcases List.mem_append.mp member with word | star
    · have sign := mem_phrase word
      revert sign
      decide
    · have sign := declarator.pointer_chars _ star
      revert sign
      decide
  rw [baseType, field, dropDimensions_append bare (bracketed_sizesText _)]
  exact dropEndWhile_phrase filled declarator.pointer_chars

theorem Declaration.declarationFields_text (declaration : Declaration) :
    declarationFields declaration.text = declaration.fields := by
  have pieces : split declaration.text = declaration.pieces := by
    rw [declaration.text_eq_joinWith]
    exact split_joinWith (List.cons_ne_nil _ _) declaration.piece_pieces
  have plain : '(' ∉ phrase declaration.base ++ ' ' :: declaration.first.text :=
    not_mem_of_plain declaration.plain_first (by decide)
  have others : (declaration.others.map Declarator.text).map (fun other =>
      parse (phrase declaration.base ++ ' ' :: other)) =
        declaration.others.map (·.field (phrase declaration.base)) := by
    rw [List.map_map]
    exact List.map_congr_left fun declarator _ => declaration.parse_declarator declarator
  rw [declarationFields, pieces, Declaration.pieces]
  -- the others start again from the base type that the first field's type leaves
  simp only [declaration.parse_declarator, plain, declaration.first.baseType_field declaration.filled,
    others, ↓reduceIte]
  rw [List.filter_eq_self.mpr]
  · rfl
  · intro field member
    obtain ⟨declarator, -, rfl⟩ := List.mem_map.mp member
    rfl

/-! ## Fields -/

/-- A field as it is written: a function pointer, or declarators after a base type. -/
inductive FieldForm where
  | callback (form : Callback) (noBraces : '{' ∉ form.arguments ∧ '}' ∉ form.arguments)
  | declared (form : Declaration)

namespace FieldForm

def text : FieldForm → Text
  | .callback form _ => form.text
  | .declared form => form.text

def fields : FieldForm → List Parameter
  | .callback form _ => [form.parameter]
  | .declared form => form.fields

theorem trim_text (form : FieldForm) : trim form.text = form.text := by
  cases form with
  | callback form _ => exact form.piece.trim
  | declared form => exact form.trim_text

theorem ne_nil (form : FieldForm) : form.text ≠ [] := by
  cases form with
  | callback form _ => exact form.piece.ne_nil
  | declared form => simp [text, Declaration.text]

theorem not_mem_semicolon (form : FieldForm) : ';' ∉ form.text := by
  cases form with
  | callback form _ => exact form.not_mem (by decide) form.oneDeclaration
  | declared form => exact form.not_mem (by decide)

theorem isBodyText_text (form : FieldForm) : ∀ c ∈ form.text, isBodyText c = true := by
  have braces : '{' ∉ form.text ∧ '}' ∉ form.text := by
    cases form with
    | callback form noBraces =>
      exact ⟨form.not_mem (by decide) noBraces.1, form.not_mem (by decide) noBraces.2⟩
    | declared form => exact ⟨form.not_mem (by decide), form.not_mem (by decide)⟩
  intro c member
  have opening : c ≠ '{' := fun same => braces.1 (same ▸ member)
  have closing : c ≠ '}' := fun same => braces.2 (same ▸ member)
  simp [isBodyText, opening, closing]

theorem declarationFields_text (form : FieldForm) : declarationFields form.text = form.fields := by
  cases form with
  | callback form _ =>
    -- its commas stand in parentheses, and its first declarator holds one
    have single : split form.text = [form.text] :=
      split_joinWith (show [form.text] ≠ [] by simp) (by simpa using form.piece)
    have opening : '(' ∈ form.text := by simp [Callback.text, Callback.tail]
    simp only [text, fields, declarationFields, single, form.parse_text form.piece, opening,
      Callback.parameter, Option.isNone_some, Bool.false_eq_true, ↓reduceIte]
  | declared form => exact form.declarationFields_text

end FieldForm

def bodyText (forms : List FieldForm) : Text :=
  (forms.flatMap fun form => ' ' :: form.text ++ [';']) ++ [' ']

theorem fieldsOf_append {declaration : Text} (whole : ';' ∉ declaration)
    (filled : trim declaration ≠ []) (rest : Text) :
    fieldsOf (declaration ++ ';' :: rest) =
      declarationFields (trim declaration) ++ fieldsOf rest := by
  simp [fieldsOf, splitOn_append_cons whole, filled]

theorem fieldsOf_bodyText (forms : List FieldForm) :
    fieldsOf (bodyText forms) = forms.flatMap FieldForm.fields := by
  induction forms with
  | nil => decide
  | cons form forms ih =>
    have body : bodyText (form :: forms) = (' ' :: form.text) ++ ';' :: bodyText forms := by
      simp [bodyText]
    have trimmed : trim (' ' :: form.text) = form.text := form.trim_text
    have filled : trim (' ' :: form.text) ≠ [] := by
      rw [trimmed]
      exact form.ne_nil
    rw [body, fieldsOf_append (by simp [form.not_mem_semicolon]) filled, trimmed,
      form.declarationFields_text, ih, List.flatMap_cons]

theorem isBodyText_bodyText (forms : List FieldForm) :
    ∀ c ∈ bodyText forms, isBodyText c = true := by
  intro c member
  rcases List.mem_append.mp member with field | space
  · obtain ⟨form, -, inside⟩ := List.mem_flatMap.mp field
    rcases List.mem_append.mp inside with text | semicolon
    · rcases List.mem_cons.mp text with rfl | later
      · rfl
      · exact form.isBodyText_text c later
    · exact List.mem_singleton.mp semicolon ▸ rfl
  · exact List.mem_singleton.mp space ▸ rfl

theorem body?_append {body : Text} (chars : ∀ c ∈ body, isBodyText c = true) (rest : Text) :
    body? ('{' :: (body ++ '}' :: rest)) = some (body, rest) := by
  have stops : isBodyText '}' = false := rfl
  simp only [body?, dropLeading?, List.dropWhile_append_of_pos chars,
    List.takeWhile_append_of_pos chars, List.dropWhile_cons_of_neg, List.takeWhile_cons_of_neg, stops,
    Bool.false_eq_true, not_false_eq_true, Option.bind_eq_bind, Option.bind_some, ↓reduceIte,
    List.append_nil, Option.pure_def]

/-! ## Definitions -/

def kindText : RecordKind → Text
  | .struct => "struct".toList
  | .union => "union".toList

/-- A record as it is written. The tag of a type definition does not count. -/
inductive Form where
  | typedef (kind : RecordKind) (tag : Option Word) (fields : List FieldForm) (name : Word)
  | tagged (kind : RecordKind) (tag : Word) (fields : List FieldForm)

def tagText : Option Word → Text
  | none => []
  | some tag => ' ' :: tag.text

namespace Form

def text : Form → Text
  | .typedef kind tag fields name =>
    "typedef ".toList ++ (kindText kind ++ (tagText tag ++
      ' ' :: '{' :: (bodyText fields ++ '}' :: ' ' :: (name.text ++ [';']))))
  | .tagged kind tag fields =>
    kindText kind ++ ' ' :: (tag.text ++ ' ' :: '{' :: (bodyText fields ++ ['}', ';']))

def record : Form → Record
  | .typedef kind _ fields name => ⟨kind, name.text, fields.flatMap FieldForm.fields⟩
  | .tagged kind tag fields => ⟨kind, tag.text, fields.flatMap FieldForm.fields⟩

end Form

/-- Records with blank space before each of them and after the last. -/
def written (forms : List (Gap × Form)) (ending : Gap) : Text :=
  (forms.flatMap fun (gap, form) => gap.text ++ form.text) ++ ending.text

theorem kind?_kindText (kind : RecordKind) (rest : Text) :
    kind? (kindText kind ++ rest) = some (kind, rest) := by
  cases kind <;> rfl

theorem dropWhile_tagText (tag : Option Word) (rest : Text) :
    trimStart ((trimStart (tagText tag ++ ' ' :: '{' :: rest)).dropWhile isWord) = '{' :: rest := by
  cases tag with
  | none => rfl
  | some tag =>
    rw [tagText, List.cons_append, trimStart_space, tag.trimStart_append,
      List.dropWhile_append_of_pos tag.chars]
    rfl

section

variable (kind : RecordKind) {body : Text} (chars : ∀ c ∈ body, isBodyText c = true) (rest : Text)

/-- A type definition of a record with the given text between its braces. -/
def typedefText (kind : RecordKind) (tag : Option Word) (body : Text) (name : Word) : Text :=
  "typedef ".toList ++ (kindText kind ++ (tagText tag ++
    ' ' :: '{' :: (body ++ '}' :: ' ' :: (name.text ++ [';']))))

/-- A tagged record with the given text between its braces. -/
def taggedText (kind : RecordKind) (tag : Word) (body : Text) : Text :=
  kindText kind ++ ' ' :: (tag.text ++ ' ' :: '{' :: (body ++ ['}', ';']))

/-- A record has words before its braces, and perhaps a word after them. -/
def Framed (text body : Text) : Prop :=
  ∃ opening ending, text = opening ++ '{' :: (body ++ (ending ++ [';'])) ∧
    (∀ c ∈ opening, isWord c = true ∨ isSpace c = true) ∧
    (∀ c ∈ ending, isWord c = true ∨ isSpace c = true ∨ c = '}')

theorem kindText_chars (kind : RecordKind) : ∀ c ∈ kindText kind, isWord c = true := by
  cases kind <;> decide

theorem framed_typedefText (kind : RecordKind) (tag : Option Word) (body : Text) (name : Word) :
    Framed (typedefText kind tag body name) body := by
  have space : isSpace ' ' = true := by decide
  have keyword : ∀ c ∈ "typedef ".toList, isWord c = true ∨ isSpace c = true := by decide
  refine ⟨"typedef ".toList ++ (kindText kind ++ (tagText tag ++ [' '])), '}' :: ' ' :: name.text,
    ?_, ?_, ?_⟩
  · unfold typedefText
    simp only [List.append_assoc, List.cons_append, List.nil_append]
  · intro c member
    simp only [List.mem_append, List.mem_singleton] at member
    rcases member with typedef | kindMember | tagMember | rfl
    · exact keyword c typedef
    · exact Or.inl (kindText_chars kind c kindMember)
    · cases tag with
      | none => cases tagMember
      | some tag =>
        rcases List.mem_cons.mp tagMember with rfl | inside
        · exact Or.inr space
        · exact Or.inl (tag.chars c inside)
    · exact Or.inr space
  · intro c member
    simp only [List.mem_cons] at member
    rcases member with rfl | rfl | inside
    · exact Or.inr (Or.inr rfl)
    · exact Or.inr (Or.inl space)
    · exact Or.inl (name.chars c inside)

theorem framed_taggedText (kind : RecordKind) (tag : Word) (body : Text) :
    Framed (taggedText kind tag body) body := by
  have space : isSpace ' ' = true := by decide
  refine ⟨kindText kind ++ ' ' :: (tag.text ++ [' ']), ['}'], ?_, ?_, ?_⟩
  · unfold taggedText
    simp only [List.append_assoc, List.cons_append, List.nil_append]
  · intro c member
    simp only [List.mem_append, List.mem_cons, List.not_mem_nil, or_false] at member
    rcases member with kindMember | rfl | inside | rfl
    · exact Or.inl (kindText_chars kind c kindMember)
    · exact Or.inr space
    · exact Or.inl (tag.chars c inside)
    · exact Or.inr space
  · intro c member
    exact Or.inr (Or.inr (List.mem_singleton.mp member))

include chars

theorem definition?_typedefText (tag : Option Word) (name : Word) :
    definition? (typedefText kind tag body name ++ rest) =
      some (⟨kind, name.text, fieldsOf body⟩, rest) := by
  have whole : typedefText kind tag body name ++ rest =
      "typedef".toList ++ ' ' :: (kindText kind ++ (tagText tag ++
        ' ' :: '{' :: (body ++ '}' :: ' ' :: (name.text ++ ';' :: rest)))) := by
    dsimp only [typedefText]
    simp only [List.append_assoc, List.cons_append, List.nil_append]
    rfl
  have leads (after : Text) :
      dropLeading? "typedef".toList ("typedef".toList ++ after) = some after := rfl
  have blank (after : Text) : blank? (' ' :: (kindText kind ++ after)) =
      some (kindText kind ++ after) := by cases kind <;> rfl
  simp only [whole, definition?, typedef?, leads, blank, kind?_kindText, dropWhile_tagText,
    body?_append chars, trimStart_space, name.trimStart_append,
    name.word?_append_cons (show isWord ';' = false by decide),
    dropLeading?_trimStart (show isSpace ';' = false by decide), Option.bind_eq_bind,
    Option.bind_some, Option.pure_def]

theorem definition?_taggedText (tag : Word) :
    definition? (taggedText kind tag body ++ rest) =
      some (⟨kind, tag.text, fieldsOf body⟩, rest) := by
  have whole : taggedText kind tag body ++ rest =
      kindText kind ++ ' ' :: (tag.text ++ ' ' :: '{' :: (body ++ '}' :: ';' :: rest)) := by
    dsimp only [taggedText]
    simp only [List.append_assoc, List.cons_append, List.nil_append]
  -- a tagged definition begins with another word than a type definition
  have untyped : typedef? (taggedText kind tag body ++ rest) = none := by
    cases kind <;> rfl
  have blank (after : Text) : blank? (' ' :: (tag.text ++ after)) = some (tag.text ++ after) := by
    rw [blank?, if_pos (by decide), tag.trimStart_append]
  rw [definition?, untyped]
  simp only [whole, tagged?, kind?_kindText, blank,
    tag.word?_append_cons (show isWord ' ' = false by decide), trimStart_space,
    trimStart_cons (show isSpace '{' = false by decide), body?_append chars,
    dropLeading?_trimStart (show isSpace ';' = false by decide), Option.bind_eq_bind,
    Option.bind_some, Option.pure_def]

end

theorem definition?_text (form : Form) (rest : Text) :
    definition? (form.text ++ rest) = some (form.record, rest) := by
  cases form with
  | typedef kind tag fields name =>
    have read := definition?_typedefText kind (isBodyText_bodyText fields) rest tag name
    rwa [fieldsOf_bodyText] at read
  | tagged kind tag fields =>
    have read := definition?_taggedText kind (isBodyText_bodyText fields) rest tag
    rwa [fieldsOf_bodyText] at read

/-! ## Texts -/

theorem extractFrom_of_found {afterWord : Bool} {s after : Text} {record : Record}
    (found : definitionAt? afterWord s = some (record, after)) :
    extractFrom afterWord s = record :: extractFrom false after := by
  cases s with
  | nil => exact absurd (definitionAt?_length found) (Nat.not_lt_zero _)
  | cons c rest =>
    rw [extractFrom]
    split
    next result =>
      rw [found] at result
      cases result
      rfl
    next result =>
      rw [found] at result
      cases result

theorem extractFrom_of_notFound {afterWord : Bool} {c : Char} {rest : Text}
    (nothing : definitionAt? afterWord (c :: rest) = none) :
    extractFrom afterWord (c :: rest) = extractFrom (isWord c) rest := by
  rw [extractFrom]
  split
  next result =>
    rw [nothing] at result
    cases result
  next => rfl

theorem extractFrom_of_some {s after : Text} {record : Record}
    (found : definition? s = some (record, after)) :
    extractFrom false s = record :: extractFrom false after :=
  extractFrom_of_found found

theorem extractFrom_of_none {afterWord : Bool} {c : Char} {rest : Text}
    (nothing : definition? (c :: rest) = none) :
    extractFrom afterWord (c :: rest) = extractFrom (isWord c) rest := by
  apply extractFrom_of_notFound
  rw [definitionAt?, nothing, ite_self]

/-- A definition starts with a word. -/
theorem definition?_blank {c : Char} (blank : isSpace c = true) (rest : Text) :
    definition? (c :: rest) = none := by
  -- each of the three words begins with a letter
  have first {word : Char} {more : Text} (letter : isWord word = true) :
      dropLeading? (word :: more) (c :: rest) = none := by
    rw [dropLeading?, if_neg]
    rintro rfl
    rw [isWord_of_isSpace blank] at letter
    cases letter
  have untyped : dropLeading? "typedef".toList (c :: rest) = none := first (by decide)
  have struct : dropLeading? "struct".toList (c :: rest) = none := first (by decide)
  have union : dropLeading? "union".toList (c :: rest) = none := first (by decide)
  simp only [definition?, typedef?, tagged?, kind?, untyped, struct, union, Option.map_none,
    Option.bind_eq_bind, Option.bind_none]

theorem extractFrom_gap (gap : Gap) (rest : Text) :
    extractFrom false (gap.text ++ rest) = extractFrom false rest := by
  obtain ⟨text, blank⟩ := gap
  induction text with
  | nil => rfl
  | cons c text ih =>
    obtain ⟨here, others⟩ := List.forall_mem_cons.mp blank
    rw [List.cons_append, extractFrom_of_none (definition?_blank here _), isWord_of_isSpace here]
    exact ih others

theorem extract_writtenRecords (forms : List (Gap × Form)) (ending : Gap) :
    extract (written forms ending) = forms.map fun (_, form) => form.record := by
  induction forms with
  | nil =>
    have whole : written [] ending = ending.text ++ [] := by simp [written]
    rw [extract, whole, extractFrom_gap, extractFrom]
    rfl
  | cons first forms ih =>
    obtain ⟨gap, form⟩ := first
    have whole : written ((gap, form) :: forms) ending =
        gap.text ++ (form.text ++ written forms ending) := by simp [written]
    have found := definition?_text form (written forms ending)
    rw [extract, whole, extractFrom_gap, extractFrom_of_some found, List.map_cons]
    exact congrArg _ ih

/-- Declarators that share a base type, and a function pointer whose arguments hold a comma. -/
def Form.node : Form :=
  .typedef .struct (some ⟨"node".toList, by decide, by decide⟩) [
    .declared {
      base := [⟨"signed".toList, by decide, by decide⟩, ⟨"long".toList, by decide, by decide⟩]
      filled := by decide
      notTag := by decide
      first := ⟨1, ⟨"links".toList, by decide, by decide⟩, [⟨"2".toList, by decide⟩], by decide⟩
      others := [⟨0, ⟨"size".toList, by decide, by decide⟩, [], by decide⟩] },
    .callback ⟨⟨[⟨"short".toList, by decide, by decide⟩], by decide, []⟩,
      ⟨"visit".toList, by decide, by decide⟩, "char, char".toList, by decide,
      ⟨by decide, by decide⟩, by decide, by decide⟩ ⟨by decide, by decide⟩]
    ⟨"Node".toList, by decide, by decide⟩

theorem extract_writtenRecords_node :
    extract ("typedef struct node { signed long *links[2], size; short (*visit)(char, char); } " ++
      "Node;\nunion none { };\n").toList =
      [⟨.struct, "Node".toList, [⟨"signed long *[2]".toList, some "links".toList⟩,
        ⟨"signed long".toList, some "size".toList⟩,
        ⟨"short (*visit)(char, char)".toList, some "visit".toList⟩]⟩,
      ⟨.union, "none".toList, []⟩] :=
  extract_writtenRecords [(⟨[], by decide⟩, Form.node),
    (⟨['\n'], by decide⟩, .tagged .union ⟨"none".toList, by decide, by decide⟩ [])]
    ⟨['\n'], by decide⟩

/-! ## Names -/

/-- A record goes by the word behind its body or by the one in front of it. -/
theorem exists_name_of_definition? {s rest : Text} {record : Record}
    (found : definition? s = some (record, rest)) : ∃ word : Word, word.text = record.name := by
  rw [definition?] at found
  split at found
  next result typed =>
    cases found
    simp only [typedef?, Option.bind_eq_bind, Option.bind_eq_some_iff] at typed
    obtain ⟨_, -, _, -, _, -, _, -, ⟨name, _⟩, named, _, -, made⟩ := typed
    obtain ⟨word, rfl, -⟩ := exists_word named
    cases made
    exact ⟨word, rfl⟩
  next =>
    simp only [tagged?, Option.bind_eq_bind, Option.bind_eq_some_iff] at found
    obtain ⟨_, -, _, -, ⟨tag, _⟩, named, _, -, _, -, made⟩ := found
    obtain ⟨word, rfl, -⟩ := exists_word named
    cases made
    exact ⟨word, rfl⟩

theorem exists_name {flat : Text} {record : Record} (member : record ∈ extract flat) :
    ∃ word : Word, word.text = record.name := by
  suffices every : ∀ afterWord, record ∈ extractFrom afterWord flat →
      ∃ word : Word, word.text = record.name from every false member
  intro afterWord inside
  clear member
  induction afterWord, flat using extractFrom.induct with
  | case1 afterWord =>
    rw [extractFrom] at inside
    cases inside
  | case2 afterWord c rest first after found _ ih =>
    rw [extractFrom_of_found found] at inside
    rcases List.mem_cons.mp inside with rfl | later
    · -- what is found is a definition that starts here, not within a word
      rw [definitionAt?] at found
      split at found
      · cases found
      · exact exists_name_of_definition? found
    · exact ih later
  | case3 afterWord c rest nothing ih =>
    rw [extractFrom_of_notFound nothing] at inside
    exact ih inside

end CHeader.Record
