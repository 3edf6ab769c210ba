import CHeader.Proofs.Prototype
import CHeader.Proofs.Record
import CHeader.Proofs.Text.Flat
import CHeader.Syntax.Declarations

/-!
# Written headers

A header is written as a list of items, prototypes and records, with blank space between them. A
prototype has any text for its parameters that holds no semicolon and no sign of a comment or a
directive. A record has fields that are function pointers or hold no parentheses.

Flattening such a header gives the same items with one space in place of each run of blank space.
-/
namespace CHeader

open Text

/-! ## Fields -/

/-- The text of a field before its semicolon. A function pointer returns a single word with stars,
and its arguments are made of words, stars and commas. -/
inductive IsField : Text → Prop
  | plain {s : Text} (starts : Starts s) (ends : Ends s)
      (clean : ∀ sign ∈ [';', '{', '}', '#', '/', '(', ')'], sign ∉ s) : IsField s
  | callback (returns name : Word) {pointer arguments : Text}
      (stars : ∀ c ∈ pointer, isSpace c = true ∨ c = '*')
      (chars : ∀ c ∈ arguments, isWord c = true ∨ isSpace c = true ∨ c = '*' ∨ c = ',') :
      IsField (returns.text ++ (pointer ++
        '(' :: '*' :: (name.text ++ ')' :: '(' :: (arguments ++ [')']))))

namespace IsField

variable {s : Text}

theorem starts (field : IsField s) : Starts s := by
  cases field with
  | plain starts => exact starts
  | callback returns => exact returns.starts.append _

theorem ends (field : IsField s) : Ends s := by
  cases field with
  | plain _ ends => exact ends
  | @callback returns name pointer arguments =>
    have whole : returns.text ++ (pointer ++
        '(' :: '*' :: (name.text ++ ')' :: '(' :: (arguments ++ [')']))) =
        (returns.text ++ (pointer ++ '(' :: '*' :: (name.text ++ ')' :: '(' :: arguments))) ++
          [')'] := by simp
    rw [whole]
    exact ends_concat (by decide) _

theorem not_mem (field : IsField s) {sign : Char} (member : sign ∈ [';', '{', '}', '#', '/']) :
    sign ∉ s := by
  cases field with
  | plain _ _ clean =>
    apply clean
    simp only [List.mem_cons, List.not_mem_nil, or_false] at member ⊢
    tauto
  | callback returns name stars chars =>
    have apart : ∀ sign ∈ [';', '{', '}', '#', '/'], isWord sign = false ∧
        isSpace sign = false ∧ sign ∉ ['*', ',', '(', ')'] := by decide
    obtain ⟨noWord, solid, other⟩ := apart sign member
    simp only [List.mem_cons, List.not_mem_nil, or_false, not_or] at other
    have pointer := mt (stars sign) (by simp [solid, other])
    have arguments := mt (chars sign) (by simp [noWord, solid, other])
    simp [returns.not_mem noWord, name.not_mem noWord, pointer, arguments, other]

/-- Words and signs are kept, and so is what kind of field it is. -/
theorem squeeze (field : IsField s) : IsField (squeeze s) := by
  cases field with
  | plain starts ends clean =>
    refine .plain starts.squeeze ends.squeeze fun sign member => ?_
    apply not_mem_squeeze (clean sign member)
    rintro rfl
    revert member
    decide
  | @callback returns name pointer arguments stars chars =>
    -- words and signs part the text, so only the stars and the arguments are squeezed
    rw [squeeze_append_of_ends returns.ends, squeeze_append_cons (by decide),
      squeeze_cons (by decide), squeeze_append_cons (by decide), squeeze_cons (by decide),
      squeeze_append_cons (by decide), squeeze_word, squeeze_word]
    refine .callback returns name ?_ ?_
    · intro c member
      rcases mem_squeeze member with rfl | inside
      · exact Or.inl (by decide)
      · exact stars c inside
    · intro c member
      rcases mem_squeeze member with rfl | inside
      · exact Or.inr (Or.inl (by decide))
      · exact chars c inside

end IsField

/-! ## Items -/

def Text.Gap.squeeze (gap : Gap) : Gap where
  text := Text.squeeze gap.text
  blank c member := (mem_squeeze member).elim (fun space => space ▸ by decide) (gap.blank c)

namespace Item

structure Field where
  gap : Gap
  text : Text
  form : IsField text

/-- The text between the braces of a record. -/
structure Body where
  fields : List Field
  closing : Gap

structure Function where
  returns : Word
  stars : Nat
  name : Word
  parameters : Text
  unreserved : returns.text ∉ Prototype.reservedWords ∧ returns.text ∉ Syntax.storageWords
  proper : name.text ∉ Parameter.typeWords ∧ name.text ∉ Prototype.reservedWords
  single : ';' ∉ parameters
  plain : '#' ∉ parameters ∧ Unopened parameters

end Item

/-- A declaration of a header. -/
inductive Item where
  | function (form : Item.Function)
  | typedef (kind : RecordKind) (tag : Option Word) (body : Item.Body) (name : Word)
  | tagged (kind : RecordKind) (tag : Word) (body : Item.Body)

namespace Item

/-! ## How they are written -/

def fieldsText (fields : List Field) : Text :=
  fields.flatMap fun field => field.gap.text ++ (field.text ++ [';'])

def Body.text (body : Body) : Text := fieldsText body.fields ++ body.closing.text

def Function.text (form : Function) : Text :=
  Prototype.headText form.returns form.stars form.name form.parameters

def text : Item → Text
  | .function form => form.text ++ [';']
  | .typedef kind tag body name => Record.typedefText kind tag body.text name
  | .tagged kind tag body => Record.taggedText kind tag body.text

/-- Items with blank space before each of them. -/
def joined (items : List (Gap × Item)) : Text :=
  items.flatMap fun (gap, item) => gap.text ++ item.text

def written (items : List (Gap × Item)) (ending : Gap) : Text := joined items ++ ending.text

/-! ## What they declare -/

def Function.prototype (form : Function) : Prototype where
  name := form.name.text
  returns := form.returns.text ++ List.replicate form.stars '*'
  parameters := Parameter.parseList form.parameters

def Body.parameters (body : Body) : List Parameter :=
  body.fields.flatMap fun field => Record.declarationFields field.text

def prototype? : Item → Option Prototype
  | .function form => some form.prototype
  | .typedef .. | .tagged .. => none

def record? : Item → Option Record
  | .function _ => none
  | .typedef kind _ body name => some ⟨kind, name.text, body.parameters⟩
  | .tagged kind tag body => some ⟨kind, tag.text, body.parameters⟩

theorem fieldsOf_fieldsText (fields : List Field) (closing : Gap) :
    Record.fieldsOf (fieldsText fields ++ closing.text) =
      fields.flatMap fun field => Record.declarationFields field.text := by
  induction fields with
  | nil =>
    have blank : trim closing.text = [] := by
      have passed := trimStart_append_of_blank closing.blank []
      rw [List.append_nil] at passed
      rw [trim, passed]
      rfl
    have absent : ';' ∉ closing.text := closing.not_mem (by decide)
    simp [fieldsText, Record.fieldsOf, splitOn_eq_singleton absent, blank]
  | cons field fields ih =>
    have whole : fieldsText (field :: fields) ++ closing.text =
        (field.gap.text ++ field.text) ++ ';' :: (fieldsText fields ++ closing.text) := by
      simp [fieldsText]
    have single : ';' ∉ field.gap.text ++ field.text := by
      simp [field.gap.not_mem (show isSpace ';' = false by decide),
        field.form.not_mem (show ';' ∈ [';', '{', '}', '#', '/'] by simp)]
    have trimmed : trim (field.gap.text ++ field.text) = field.text := by
      rw [trim, trimStart_append_of_blank field.gap.blank, ← trim,
        trim_eq_self field.form.starts field.form.ends]
    have filled : trim (field.gap.text ++ field.text) ≠ [] := by
      rw [trimmed]
      exact field.form.starts.ne_nil
    rw [whole, Record.fieldsOf_append single filled, trimmed, ih]
    rfl

/-! ## One space for each run of blank space -/

def Field.squeeze (field : Field) : Field :=
  ⟨field.gap.squeeze, Text.squeeze field.text, field.form.squeeze⟩

def Body.squeeze (body : Body) : Body :=
  ⟨body.fields.map Field.squeeze, body.closing.squeeze⟩

def Function.squeeze (form : Function) : Function := { form with
  parameters := Text.squeeze form.parameters
  single := not_mem_squeeze form.single (by decide)
  plain := ⟨not_mem_squeeze form.plain.1 (by decide), form.plain.2.squeeze⟩ }

def squeeze : Item → Item
  | .function form => .function form.squeeze
  | .typedef kind tag body name => .typedef kind tag body.squeeze name
  | .tagged kind tag body => .tagged kind tag body.squeeze

/-! ## Flattening -/

theorem starts_kindText (kind : RecordKind) : Starts (Record.kindText kind) := by
  cases kind with
  | struct => exact ⟨'s', by decide, by decide⟩
  | union => exact ⟨'u', by decide, by decide⟩

theorem starts_text (item : Item) : Starts item.text := by
  cases item with
  | function form =>
    apply Starts.append
    rw [Function.text, Prototype.headText, List.append_assoc]
    exact form.returns.starts.append _
  | typedef kind tag body name =>
    have keyword : Starts "typedef ".toList := ⟨'t', by decide, by decide⟩
    exact keyword.append _
  | tagged kind tag body =>
    exact (starts_kindText kind).append _

/-- A record has words before its braces, and perhaps a word after them. -/
theorem exists_record {item : Item} {record : Record} (isRecord : item.record? = some record) :
    ∃ opening fields ending,
      item.text = opening ++ '{' :: (fieldsText fields ++ (ending ++ [';'])) ∧
      (∀ c ∈ opening, isWord c = true ∨ isSpace c = true) ∧
      (∀ c ∈ ending, isWord c = true ∨ isSpace c = true ∨ c = '}') := by
  -- the blank space behind the last field belongs to what follows the fields
  have framed (body : Body) (whole : Record.Framed item.text body.text) :
      ∃ opening fields ending,
        item.text = opening ++ '{' :: (fieldsText fields ++ (ending ++ [';'])) ∧
        (∀ c ∈ opening, isWord c = true ∨ isSpace c = true) ∧
        (∀ c ∈ ending, isWord c = true ∨ isSpace c = true ∨ c = '}') := by
    obtain ⟨opening, ending, whole, before, after⟩ := whole
    refine ⟨opening, body.fields, body.closing.text ++ ending, ?_, before, fun c member => ?_⟩
    · rw [whole, Body.text, List.append_assoc, List.append_assoc]
    · rcases List.mem_append.mp member with gap | inside
      · exact Or.inr (Or.inl (body.closing.blank c gap))
      · exact after c inside
  cases item with
  | function form => cases isRecord
  | typedef kind tag body name => exact framed body (Record.framed_typedefText kind tag _ name)
  | tagged kind tag body => exact framed body (Record.framed_taggedText kind tag _)

theorem function_or_record (item : Item) :
    (∃ form, item = .function form) ∨ ∃ record, item.record? = some record := by
  cases item with
  | function form => exact Or.inl ⟨form, rfl⟩
  | typedef => exact Or.inr ⟨_, rfl⟩
  | tagged => exact Or.inr ⟨_, rfl⟩

theorem prototype?_eq_none {item : Item} {record : Record} (isRecord : item.record? = some record) :
    item.prototype? = none := by
  cases item with
  | function form => cases isRecord
  | typedef => rfl
  | tagged => rfl

theorem ends_text (item : Item) : Ends item.text := by
  rcases item.function_or_record with ⟨form, rfl⟩ | ⟨record, isRecord⟩
  · exact ends_concat (by decide) _
  · obtain ⟨opening, fields, ending, whole, -⟩ := exists_record isRecord
    rw [whole]
    exact (((ends_concat (by decide) ending).append _).append ['{']).append opening

theorem squeeze_fieldsText (fields : List Field) (rest : Text) :
    Text.squeeze (fieldsText fields ++ rest) =
      fieldsText (fields.map Field.squeeze) ++ Text.squeeze rest := by
  induction fields with
  | nil => rfl
  | cons field fields ih =>
    have whole : fieldsText (field :: fields) ++ rest =
        field.gap.text ++ (field.text ++ ';' :: (fieldsText fields ++ rest)) := by
      simp [fieldsText]
    rw [whole, squeeze_append_of_starts _ (field.form.starts.append _),
      squeeze_append_cons (by decide), ih]
    simp [fieldsText, Field.squeeze, Gap.squeeze]

theorem squeeze_bodyText (body : Body) : Text.squeeze body.text = body.squeeze.text :=
  squeeze_fieldsText body.fields body.closing.text

theorem Function.squeeze_text (form : Function) : Text.squeeze form.text = form.squeeze.text := by
  have stars : ∀ c ∈ List.replicate form.stars '*', isSpace c = false := by
    intro c star
    rw [List.eq_of_mem_replicate star]
    decide
  have name : Starts (form.name.text ++ '(' :: (form.parameters ++ [')'])) :=
    form.name.starts.append _
  rw [text, Prototype.headText, List.append_assoc, squeeze_word_append,
    squeeze_append_of_solid stars, squeeze_space name, squeeze_word_append,
    squeeze_cons (by decide), squeeze_append_cons (by decide)]
  simp [text, Prototype.headText, squeeze, Text.squeeze]

/-- What stands before the braces of a record has single spaces already. -/
theorem squeeze_kindText (kind : RecordKind) (rest : Text) :
    Text.squeeze (Record.kindText kind ++ rest) = Record.kindText kind ++ Text.squeeze rest := by
  apply squeeze_append_of_solid
  cases kind <;> decide

theorem squeeze_tagText (tag : Option Word) (rest : Text) :
    Text.squeeze (Record.tagText tag ++ ' ' :: '{' :: rest) =
      Record.tagText tag ++ ' ' :: '{' :: Text.squeeze rest := by
  have brace : Text.squeeze (' ' :: '{' :: rest) = ' ' :: '{' :: Text.squeeze rest := by
    rw [squeeze_space (starts_cons (by decide) rest), squeeze_cons (by decide)]
  cases tag with
  | none => exact brace
  | some tag =>
    rw [Record.tagText, List.cons_append, squeeze_space (tag.starts.append _),
      squeeze_word_append, brace]
    rfl

theorem squeeze_text (item : Item) : Text.squeeze item.text = item.squeeze.text := by
  cases item with
  | function form =>
    rw [text, squeeze_append_cons (by decide), form.squeeze_text]
    rfl
  | typedef kind tag body name =>
    have keyword : Text.squeeze "typedef ".toList = "typedef ".toList := by decide
    have ending : Text.squeeze (body.text ++ '}' :: ' ' :: (name.text ++ [';'])) =
        body.squeeze.text ++ '}' :: ' ' :: (name.text ++ [';']) := by
      rw [squeeze_append_cons (by decide), squeeze_bodyText,
        squeeze_space (name.starts.append _), squeeze_word_append]
      rfl
    rw [text, squeeze, text]
    unfold Record.typedefText
    rw [squeeze_append_of_starts _ ((starts_kindText kind).append _), keyword,
      squeeze_kindText, squeeze_tagText, ending]
  | tagged kind tag body =>
    have ending : Text.squeeze (body.text ++ ['}', ';']) = body.squeeze.text ++ ['}', ';'] := by
      rw [squeeze_append_cons (by decide), squeeze_bodyText]
      rfl
    have tagged := squeeze_tagText (some tag) (body.text ++ ['}', ';'])
    rw [ending] at tagged
    rw [text, Record.taggedText, squeeze_kindText]
    exact congrArg _ tagged

theorem squeeze_joined (items : List (Gap × Item)) (rest : Text) :
    Text.squeeze (joined items ++ rest) =
      joined (items.map fun (gap, item) => (gap.squeeze, item.squeeze)) ++ Text.squeeze rest := by
  induction items with
  | nil => rfl
  | cons first items ih =>
    obtain ⟨gap, item⟩ := first
    have whole : joined ((gap, item) :: items) ++ rest =
        gap.text ++ (item.text ++ (joined items ++ rest)) := by
      simp [joined]
    -- an item has no blank space at its ends, so a run of it never reaches into an item
    rw [whole, squeeze_append_of_starts _ (item.starts_text.append _),
      squeeze_append_of_ends item.ends_text, ih, item.squeeze_text]
    simp [joined, Gap.squeeze]

theorem not_mem_fieldsText (fields : List Field) {sign : Char}
    (member : sign ∈ ['{', '}', '#', '/']) : sign ∉ fieldsText fields := by
  have apart : ∀ sign ∈ ['{', '}', '#', '/'], isSpace sign = false ∧ sign ≠ ';' ∧
      sign ∈ [';', '{', '}', '#', '/'] := by decide
  obtain ⟨solid, other, excluded⟩ := apart sign member
  intro inside
  obtain ⟨field, -, inside⟩ := List.mem_flatMap.mp inside
  simp only [List.mem_append, List.mem_singleton] at inside
  rcases inside with gap | text | same
  · exact field.gap.not_mem solid gap
  · exact field.form.not_mem excluded text
  · exact other same

/-- Records hold no sign of a directive or a comment. -/
theorem not_mem_record {item : Item} {record : Record} (isRecord : item.record? = some record)
    {sign : Char} (member : sign ∈ ['#', '/']) : sign ∉ item.text := by
  have apart : ∀ sign ∈ ['#', '/'], ¬(isWord sign = true ∨ isSpace sign = true) ∧
      ¬(isWord sign = true ∨ isSpace sign = true ∨ sign = '}') ∧ sign ≠ '{' ∧ sign ≠ ';' ∧
      sign ∈ ['{', '}', '#', '/'] := by decide
  obtain ⟨noWord, noEnding, brace, semicolon, excluded⟩ := apart sign member
  obtain ⟨opening, fields, ending, whole, before, after⟩ := exists_record isRecord
  have outside : sign ∉ opening := mt (before sign) noWord
  have behind : sign ∉ ending := mt (after sign) noEnding
  rw [whole]
  simp [outside, behind, not_mem_fieldsText fields excluded, brace, semicolon]

theorem Function.text_eq (form : Function) :
    form.text = (form.returns.text ++ (List.replicate form.stars '*' ++ ' ' :: (form.name.text ++
      ['(']))) ++ (form.parameters ++ [')']) := by
  simp [text, Prototype.headText]

theorem Function.not_mem_lead (form : Function) {sign : Char} (noWord : isWord sign = false)
    (other : sign ∉ ['*', ' ', '(']) : sign ∉ form.returns.text ++
      (List.replicate form.stars '*' ++ ' ' :: (form.name.text ++ ['('])) := by
  simp only [List.mem_cons, List.not_mem_nil, or_false, not_or] at other
  simp [form.returns.not_mem noWord, form.name.not_mem noWord, other]

theorem Function.not_mem_semicolon (form : Function) : ';' ∉ form.text := by
  have lead := form.not_mem_lead (show isWord ';' = false by decide) (by decide)
  rw [form.text_eq]
  intro inside
  rcases List.mem_append.mp inside with before | after
  · exact lead before
  · simp [form.single] at after

/-- The parameters are closed right before the semicolon. -/
theorem Function.exists_parenthesis (form : Function) :
    ∃ before, form.text = before ++ [')'] ∧ ';' ∉ before := by
  have absent := form.not_mem_semicolon
  rw [form.text_eq, ← List.append_assoc] at absent ⊢
  exact ⟨_, rfl, fun member => absent (List.mem_append_left _ member)⟩

theorem not_mem_hash (item : Item) : '#' ∉ item.text := by
  rcases item.function_or_record with ⟨form, rfl⟩ | ⟨record, isRecord⟩
  · have lead := form.not_mem_lead (show isWord '#' = false by decide) (by decide)
    rw [text, form.text_eq]
    intro inside
    rcases List.mem_append.mp inside with whole | last
    · rcases List.mem_append.mp whole with before | after
      · exact lead before
      · simp [form.plain.1] at after
    · simp at last
  · exact not_mem_record isRecord (by decide)

theorem unopened_append (item : Item) {rest : Text} (unopened : Unopened rest) :
    Unopened (item.text ++ rest) := by
  rcases item.function_or_record with ⟨form, rfl⟩ | ⟨record, isRecord⟩
  · have whole : (Item.function form).text ++ rest =
        (form.returns.text ++ (List.replicate form.stars '*' ++ ' ' :: (form.name.text ++
          ['(']))) ++ (form.parameters ++ ')' :: ';' :: rest) := by
      simp [text, form.text_eq]
    rw [whole]
    apply Unopened.prepend (form.not_mem_lead (by decide) (by decide))
    apply form.plain.2.append_cons _ (by decide)
    -- the parenthesis and the semicolon stand before what follows
    rw [unopened_cons_iff, unopened_cons_iff]
    exact ⟨fun slash => absurd slash (by decide), fun slash => absurd slash (by decide), unopened⟩
  · exact unopened.prepend (not_mem_record isRecord (by decide))

theorem plain_written (items : List (Gap × Item)) (ending : Gap) :
    '#' ∉ written items ending ∧ Unopened (written items ending) := by
  induction items with
  | nil =>
    have whole : written [] ending = ending.text := rfl
    rw [whole]
    exact ⟨ending.not_mem (by decide), unopened_of_not_mem (ending.not_mem (by decide))⟩
  | cons first items ih =>
    obtain ⟨gap, item⟩ := first
    have whole : written ((gap, item) :: items) ending =
        gap.text ++ (item.text ++ written items ending) := by
      simp [written, joined]
    rw [whole]
    constructor
    · simp [gap.not_mem (show isSpace '#' = false by decide), item.not_mem_hash, ih.1]
    · exact (item.unopened_append ih.2).prepend (gap.not_mem (by decide))

theorem ends_joined {items : List (Gap × Item)} (some_item : items ≠ []) : Ends (joined items) := by
  obtain ⟨before, ⟨gap, item⟩, rfl⟩ := List.eq_nil_or_concat items |>.resolve_left some_item
  have whole : joined (before.concat (gap, item)) =
      (joined before ++ gap.text) ++ item.text := by
    simp [joined]
  rw [whole]
  exact item.ends_text.append _

/-- Flattening leaves the items as they are, but for blank space, and drops it at both ends. -/
theorem flatten_written (items : List (Gap × Item)) (ending : Gap) :
    ∃ flat : List (Gap × Item), flat.map Prod.snd = items.map (fun (_, item) => item.squeeze) ∧
      flatten (written items ending) = joined flat := by
  obtain ⟨noHash, unopened⟩ := plain_written items ending
  rw [flatten_eq_collapse unopened.not_hasComment noHash, collapse_eq, written, squeeze_joined]
  have blank : ∀ c ∈ Text.squeeze ending.text, isSpace c = true := ending.squeeze.blank
  cases items with
  | nil =>
    -- all of the text is blank
    refine ⟨[], rfl, ?_⟩
    have nothing := trimStart_append_of_blank blank []
    rw [List.append_nil] at nothing
    change trimEnd (trimStart (Text.squeeze ending.text)) = []
    rw [nothing]
    rfl
  | cons first items =>
    obtain ⟨gap, item⟩ := first
    obtain ⟨spaced, others⟩ : ∃ spaced,
        items.map (fun (gap, item) => (Gap.squeeze gap, item.squeeze)) = spaced := ⟨_, rfl⟩
    have bare : ∀ c ∈ [], isSpace c = true := by simp
    have whole (gap : Gap) : joined ((gap, item.squeeze) :: spaced) =
        gap.text ++ (item.squeeze.text ++ joined spaced) := by simp [joined]
    -- the blank space before the first item is dropped, and the one after the last
    refine ⟨(⟨[], bare⟩, item.squeeze) :: spaced, by simp [← others], ?_⟩
    have ends : Ends (joined ((⟨[], bare⟩, item.squeeze) :: spaced)) :=
      ends_joined (List.cons_ne_nil _ _)
    rw [whole, List.nil_append] at ends
    rw [List.map_cons, others, whole, whole, trim, List.append_assoc,
      trimStart_append_of_blank gap.squeeze.blank, ← trim,
      trim_append (item.squeeze.starts_text.append _) ends blank, List.nil_append]

end Item

end CHeader
