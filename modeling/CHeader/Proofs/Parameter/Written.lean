import CHeader.Proofs.Parameter.Declared

/-!
# Written parameters

The ways in which a parameter may be written, and the parameter that each of them stands for: a type
with a name and array dimensions, a type alone, or a function pointer. Reading what was written gives
that parameter.
-/
namespace CHeader.Parameter

open Text

/-! ## Texts that are no function pointer -/

theorem pointerTail?_eq_none {s : Text} (absent : '(' ∉ s) : pointerTail? s = none := by
  have opening : dropLeading? ['('] (trimStart s) = none := by
    rw [Option.eq_none_iff_forall_ne_some]
    intro rest leads
    have whole := dropLeading?_eq_some.mp leads
    refine absent ((List.dropWhile_subset isSpace) ?_)
    change '(' ∈ trimStart s
    simp [whole]
  simp only [pointerTail?, opening, Option.bind_eq_bind, Option.bind_none]

theorem functionPointer?_eq_none {s : Text} (absent : '(' ∉ s) : functionPointer? s = none := by
  induction s with
  | nil => rfl
  | cons c rest ih =>
    have later : '(' ∉ rest := fun member => absent (List.mem_cons_of_mem c member)
    rw [functionPointer?, pointerTail?_eq_none later, ih later]
    simp

theorem parse_of_declaration {s type name sizes : Text} (piece : Piece s) (absent : '(' ∉ s)
    (declared : declaration? s = some (type, name, sizes)) :
    parse s = if name ∈ typeWords ∨ trim type ∈ tagWords then ⟨s, none⟩
      else ⟨trim type ++ sizes, some name⟩ := by
  simp only [parse, piece.trim, functionPointer?_eq_none absent, declared]

theorem parse_of_none {s : Text} (piece : Piece s) (absent : '(' ∉ s)
    (undeclared : declaration? s = none) : parse s = ⟨s, none⟩ := by
  simp only [parse, piece.trim, functionPointer?_eq_none absent, undeclared]

/-! ## Types alone -/

theorem declaration?_eq_none_of_solid {s : Text}
    (solid : ∀ c ∈ s, isSpace c = false ∧ c ≠ '*') : declaration? s = none := by
  induction s with
  | nil => rfl
  | cons c rest ih =>
    obtain ⟨⟨visible, plain⟩, others⟩ := List.forall_mem_cons.mp solid
    rw [declaration?, if_neg (by simp [visible, plain]), ih others]
    simp

/-- Behind the last star there is no name. -/
theorem declaration?_eq_none_of_star {s : Text} (chars : ∀ c ∈ s, IsTypeChar c)
    (star : s.getLast? = some '*') : declaration? s = none := by
  induction s with
  | nil => rfl
  | cons c rest ih =>
    obtain ⟨here, others⟩ := List.forall_mem_cons.mp chars
    by_cases single : rest = []
    · subst single
      simp [declaration?, declarator?, word?]
    · -- the last star comes after the first word, wherever that one starts
      have later : rest.getLast? = some '*' := by
        rwa [List.getLast?_cons_of_ne_nil single] at star
      have inside : '*' ∈ rest.dropWhile isWord := by
        have member := List.mem_of_getLast? later
        rw [← List.takeWhile_append_dropWhile (p := isWord) (l := rest), List.mem_append] at member
        exact member.resolve_left fun word => by
          have := List.mem_takeWhile_imp word
          revert this
          decide
      have nothing := declarator?_eq_none (not_mem_of_typeChars others (by decide))
        ⟨'*', inside, by decide⟩ []
      rw [List.append_nil] at nothing
      rw [declaration?, nothing, ite_self, ih others later]
      simp

/-! ## Function pointers -/

/-- What follows the type that a function pointer returns. -/
def pointerEnd (name arguments : Text) : Text :=
  ' ' :: '(' :: '*' :: (name ++ ')' :: '(' :: (arguments ++ [')']))

theorem pointerType_eq (returns name arguments : Text) :
    pointerType returns name arguments = returns ++ pointerEnd name (trim arguments) := by
  simp [pointerType, pointerEnd]

theorem pointerTail?_pointerEnd (name : Word) {arguments : Text} (oneLine : '\n' ∉ arguments) :
    pointerTail? (pointerEnd name.text arguments) = some (name.text, arguments) := by
  simp only [pointerTail?, pointerEnd, trimStart_space, Option.bind_eq_bind, Option.bind_some,
    dropLeading?_trimStart (show isSpace '(' = false by decide),
    dropLeading?_trimStart (show isSpace '*' = false by decide),
    dropLeading?_trimStart (show isSpace ')' = false by decide), Word.trimStart_append,
    name.word?_append_cons (show isWord ')' = false by decide), dropLast?_concat,
    oneLine, ↓reduceIte]

/-- Behind something else that is not blank no arguments begin. -/
theorem pointerTail?_lead {lead : Text} (unopened : '(' ∉ lead) (solid : ∃ c ∈ lead, isSpace c = false)
    (tail : Text) : pointerTail? (lead ++ tail) = none := by
  induction lead with
  | nil =>
    obtain ⟨c, member, -⟩ := solid
    cases member
  | cons c lead ih =>
    simp only [List.mem_cons, not_or] at unopened
    by_cases space : isSpace c = true
    · -- blank space before the parenthesis is passed over
      obtain ⟨d, member, visible⟩ := solid
      have later : d ∈ lead := (List.mem_cons.mp member).resolve_left fun same => by
        rw [same, space] at visible
        cases visible
      have passed : trimStart (c :: lead ++ tail) = trimStart (lead ++ tail) :=
        List.dropWhile_cons_of_pos space
      rw [pointerTail?, passed, ← pointerTail?, ih unopened.2 ⟨d, later, visible⟩]
    · have closed : dropLeading? ['('] (c :: (lead ++ tail)) = none := by
        rw [dropLeading?, if_neg unopened.1]
      simp only [pointerTail?, List.cons_append, trimStart_cons (by simpa using space), closed,
        Option.bind_eq_bind, Option.bind_none]

theorem functionPointer?_append {lead tail name arguments : Text} (unopened : '(' ∉ lead)
    (oneLine : '\n' ∉ lead) (ends : Ends lead)
    (closes : pointerTail? tail = some (name, arguments)) :
    functionPointer? (lead ++ tail) = some (lead, name, arguments) := by
  obtain ⟨c, last, visible⟩ := ends
  apply Returned.functionPointer?
  constructor
  case filled => exact List.ne_nil_of_mem (List.mem_of_getLast? last)
  case oneLine => exact oneLine
  case closes => exact closes
  case shortest =>
    rintro front more rfl - left
    -- a shorter type would leave part of this one in front of the name
    rw [List.getLast?_append_of_ne_nil front left] at last
    exact pointerTail?_lead (fun member => unopened (List.mem_append_right front member))
      ⟨c, List.mem_of_getLast? last, visible⟩ tail

/-- The commas of a function pointer stand in the parentheses of its arguments. -/
theorem uncut_pointer (name : Word) {arguments : Text} (balanced : Balanced arguments) :
    Uncut 0 ('(' :: '*' :: (name.text ++ ')' :: '(' :: (arguments ++ [')']))) := by
  have whole : '(' :: '*' :: (name.text ++ ')' :: '(' :: (arguments ++ [')'])) =
      '(' :: '*' :: (name.text ++ [')', '(']) ++ (arguments ++ [')']) := by
    simp
  have head : depth ('(' :: '*' :: (name.text ++ [')', '('])) = 1 := by
    simp [depth_word, nesting]
  rw [whole]
  apply Uncut.append
  · apply uncut_of_not_mem
    simp [name.not_mem (show isWord ',' = false by decide)]
  · rw [head]
    exact (balanced.uncut (by decide)).append (uncut_of_not_mem (by decide))

/-- A function pointer: what it returns, its name, and the text of its arguments. -/
structure Callback where
  returns : TypeText
  name : Word
  arguments : Text
  trimmed : trim arguments = arguments
  balanced : Balanced arguments
  oneLine : '\n' ∉ arguments
  oneDeclaration : ';' ∉ arguments

namespace Callback

/-- What follows the returned type. -/
def tail (callback : Callback) : Text :=
  ' ' :: '(' :: '*' :: (callback.name.text ++ ')' :: '(' :: (callback.arguments ++ [')']))

def text (callback : Callback) : Text := callback.returns.text ++ callback.tail

def parameter (callback : Callback) : Parameter := ⟨callback.text, some callback.name.text⟩

theorem pointerTail?_tail (callback : Callback) :
    pointerTail? callback.tail = some (callback.name.text, callback.arguments) :=
  pointerTail?_pointerEnd callback.name callback.oneLine

theorem parse_text (callback : Callback) (piece : Piece callback.text) :
    parse callback.text = callback.parameter := by
  have pointer := functionPointer?_append (not_mem_of_typeChars callback.returns.chars (by decide))
    (not_mem_of_typeChars callback.returns.chars (by decide)) callback.returns.ends
    callback.pointerTail?_tail
  rw [parse, piece.trim]
  simp only [text, pointer, parameter]
  simp [pointerType, tail, callback.trimmed]

end Callback

/-! ## Forms -/

/-- A type with a name, and dimensions after it. -/
structure Named where
  type : TypeText
  /-- Is there a space between the type and the name? -/
  spaced : Bool
  name : Word
  sizes : List Size
  apart : type.stars = [] → spaced = true
  notTag : type.text ∉ tagWords
  notType : name.text ∉ typeWords

/-- The ways in which a parameter may be written. -/
inductive Form where
  | named (form : Named)
  | single (word : Word)
  | starred (type : TypeText) (some_star : type.stars ≠ [])
  | typeWords (words : List Word) (some_word : words ≠ []) (last : Word)
      (isType : last.text ∈ typeWords)
  | tagged (keyword : Word) (isTag : keyword.text ∈ tagWords) (tag : Word)
  | variadic
  | callback (form : Callback)

namespace Named

/-- The type, and what separates the name from it. -/
def before (form : Named) : Text := form.type.text ++ if form.spaced then [' '] else []

def text (form : Named) : Text := form.before ++ (form.name.text ++ sizesText form.sizes)

def parameter (form : Named) : Parameter :=
  ⟨form.type.text ++ sizesText form.sizes, some form.name.text⟩

theorem lead_before (form : Named) : Lead form.before := by
  cases spaced : form.spaced with
  | true =>
    rw [before, spaced]
    exact .concat form.type.chars (Or.inl rfl)
  | false =>
    -- without a space the type ends in a star, and that separates the name
    have some_star : form.type.stars ≠ [] := fun plain => by simp [form.apart plain] at spaced
    obtain ⟨front, whole⟩ := starsText_concat some_star
    refine ⟨fun c member => form.type.chars c (by simpa [before, spaced] using member), '*', ?_,
      Or.inr rfl⟩
    simp [before, spaced, TypeText.text, whole]

theorem trim_before (form : Named) : trim form.before = form.type.text :=
  trim_append form.type.starts form.type.ends fun c member => by
    split at member
    · exact List.mem_singleton.mp member ▸ rfl
    · cases member

end Named

namespace Form

def text : Form → Text
  | .named form => form.text
  | .single word => word.text
  | .starred type _ => type.text
  | .typeWords words _ last _ => phrase words ++ [' '] ++ (last.text ++ sizesText [])
  | .tagged keyword _ tag => keyword.text ++ [' '] ++ (tag.text ++ sizesText [])
  | .variadic => "...".toList
  | .callback form => form.text

/-- What is written without a name is a type as a whole. -/
def parameter : Form → Parameter
  | .named form => form.parameter
  | .callback form => form.parameter
  | form => ⟨form.text, none⟩

end Form

/-! ### Signs that separate parameters -/

/-- A character of what is written, arguments of function pointers apart. -/
def IsPlain (c : Char) : Prop := IsTypeChar c ∨ c = '[' ∨ c = ']' ∨ c = '.'

theorem not_mem_of_plain {s : Text} (plain : ∀ c ∈ s, IsPlain c) {sign : Char}
    (apart : isWord sign = false ∧ sign ∉ [' ', '*', '[', ']', '.']) : sign ∉ s := by
  intro member
  simp only [List.mem_cons, List.not_mem_nil, or_false, not_or] at apart
  rcases plain sign member with type | opening | closing | dot
  · exact type.ne ⟨apart.1, apart.2.1, apart.2.2.1⟩ rfl
  · exact apart.2.2.2.1 opening
  · exact apart.2.2.2.2.1 closing
  · exact apart.2.2.2.2.2 dot

theorem isPlain_sizesText {sizes : List Size} : ∀ c ∈ sizesText sizes, IsPlain c := by
  intro c member
  rcases mem_sizesText member with word | opening | closing
  · exact Or.inl (Or.inl word)
  · exact Or.inr (Or.inl opening)
  · exact Or.inr (Or.inr (Or.inl closing))

/-- A plain text separates nothing. -/
theorem piece_of_plain {s : Text} (starts : Starts s) (ends : Ends s)
    (plain : ∀ c ∈ s, IsPlain c) : Piece s := by
  have opens : '(' ∉ s := not_mem_of_plain plain (by decide)
  have closes : ')' ∉ s := not_mem_of_plain plain (by decide)
  have comma : ',' ∉ s := not_mem_of_plain plain (by decide)
  exact ⟨starts, ends, depth_eq_zero opens closes, uncut_of_not_mem comma⟩

theorem isPlain_declarator (name : Word) (sizes : List Size) :
    ∀ c ∈ name.text ++ sizesText sizes, IsPlain c := by
  intro c member
  rcases List.mem_append.mp member with inside | size
  · exact Or.inl (Or.inl (name.chars c inside))
  · exact isPlain_sizesText c size

theorem declarator_ends (name : Word) (sizes : List Size) :
    Ends (name.text ++ sizesText sizes) := by
  cases sizes with
  | nil => simpa [sizesText] using name.ends
  | cons size sizes =>
    obtain ⟨inside, whole⟩ := sizesText_cons size sizes
    rw [whole]
    exact (ends_concat (by decide) ('[' :: inside)).append _

section

variable {before : Text} (lead : Lead before) (name : Word) (sizes : List Size)
include lead

theorem Lead.plain : ∀ c ∈ before ++ (name.text ++ sizesText sizes), IsPlain c := by
  intro c member
  rcases List.mem_append.mp member with type | declarator
  · exact Or.inl (lead.chars c type)
  · exact isPlain_declarator name sizes c declarator

theorem Lead.piece (starts : Starts before) :
    Piece (before ++ (name.text ++ sizesText sizes)) :=
  piece_of_plain (starts.append _) ((declarator_ends name sizes).append before)
    (lead.plain name sizes)

theorem Lead.parse (starts : Starts before) :
    Parameter.parse (before ++ (name.text ++ sizesText sizes)) =
      if name.text ∈ typeWords ∨ trim before ∈ tagWords then
        ⟨before ++ (name.text ++ sizesText sizes), none⟩
      else ⟨trim before ++ sizesText sizes, some name.text⟩ :=
  parse_of_declaration (lead.piece name sizes starts)
    (not_mem_of_plain (lead.plain name sizes) (by decide)) (declaration?_append lead name sizes)

end

theorem Callback.depth_returns (callback : Callback) : depth callback.returns.text = 0 :=
  depth_eq_zero (not_mem_of_typeChars callback.returns.chars (by decide))
    (not_mem_of_typeChars callback.returns.chars (by decide))

theorem Callback.uncut_tail (callback : Callback) : Uncut 0 callback.tail := by
  have space : Uncut 0 [' '] := uncut_of_not_mem (by decide)
  exact space.append (uncut_pointer callback.name callback.balanced)

theorem Callback.piece (callback : Callback) : Piece callback.text := by
  constructor
  case starts => exact callback.returns.starts.append _
  case ends =>
    have whole : callback.tail =
        ' ' :: '(' :: '*' :: (callback.name.text ++ ')' :: '(' :: callback.arguments) ++ [')'] := by
      simp [tail]
    rw [text, whole]
    exact (ends_concat (by decide) _).append _
  case closed =>
    simp [text, tail, callback.depth_returns, depth_word, callback.balanced.closed, nesting]
  case uncut =>
    apply Uncut.append
    · exact uncut_of_not_mem (not_mem_of_typeChars callback.returns.chars (by decide))
    · rw [callback.depth_returns]
      exact callback.uncut_tail

namespace Named

theorem starts_before (form : Named) : Starts form.before := form.type.starts.append _

theorem parse_text (form : Named) : parse form.text = form.parameter := by
  rw [text, form.lead_before.parse _ _ form.starts_before, form.trim_before,
    if_neg (not_or.mpr ⟨form.notType, form.notTag⟩)]
  rfl

end Named

/-! ### Reading what was written -/

namespace Form

theorem lead_phrase (words : List Word) : Lead (phrase words ++ [' ']) :=
  .concat (fun _ member => (mem_phrase member).imp_right Or.inl) (Or.inl rfl)

theorem lead_keyword (keyword : Word) : Lead (keyword.text ++ [' ']) :=
  .concat (fun c member => Or.inl (keyword.chars c member)) (Or.inl rfl)

/-- Only the arguments of a function pointer hold other signs. -/
theorem plain_or_callback (form : Form) :
    (∀ c ∈ form.text, IsPlain c) ∨ ∃ callback : Callback, form = .callback callback := by
  cases form with
  | named form => exact Or.inl (form.lead_before.plain _ _)
  | single word => exact Or.inl fun c member => Or.inl (Or.inl (word.chars c member))
  | starred type _ => exact Or.inl fun c member => Or.inl (type.chars c member)
  | typeWords words _ last _ => exact Or.inl ((lead_phrase words).plain _ _)
  | tagged keyword _ tag => exact Or.inl ((lead_keyword keyword).plain _ _)
  | variadic =>
    refine Or.inl fun c member => Or.inr (Or.inr (Or.inr ?_))
    simpa [text] using member
  | callback form => exact Or.inr ⟨form, rfl⟩

theorem piece (form : Form) : Piece form.text := by
  cases form with
  | named form => exact form.lead_before.piece _ _ form.starts_before
  | single word =>
    exact piece_of_plain word.starts word.ends fun c member => Or.inl (Or.inl (word.chars c member))
  | starred type _ =>
    exact piece_of_plain type.starts type.ends fun c member => Or.inl (type.chars c member)
  | typeWords words some_word last _ =>
    exact (lead_phrase words).piece _ _ ((phrase_starts some_word).append _)
  | tagged keyword _ tag => exact (lead_keyword keyword).piece _ _ (keyword.starts.append _)
  | variadic =>
    exact ⟨⟨'.', rfl, by decide⟩, ⟨'.', rfl, by decide⟩, by decide, uncut_of_not_mem (by decide)⟩
  | callback form => exact form.piece

theorem parse_text (form : Form) : parse form.text = form.parameter := by
  cases form with
  | named form => exact form.parse_text
  | single word =>
    apply parse_of_none (single word).piece (word.not_mem (by decide))
    apply declaration?_eq_none_of_solid
    intro c member
    have inside := word.chars c member
    exact ⟨isSpace_of_isWord inside, ne_of_isWord inside (by decide)⟩
  | starred type some_star =>
    obtain ⟨front, whole⟩ := starsText_concat some_star
    apply parse_of_none (starred type some_star).piece
      (not_mem_of_typeChars type.chars (by decide))
    apply declaration?_eq_none_of_star type.chars
    rw [TypeText.text, whole]
    simp
  | typeWords words some_word last isType =>
    -- read as a type with a name, and refused because of the name
    rw [text, (lead_phrase words).parse last [] ((phrase_starts some_word).append _),
      if_pos (Or.inl isType)]
    rfl
  | tagged keyword isTag tag =>
    -- refused because of the type
    have trimmed := trim_append keyword.starts keyword.ends
      (show ∀ c ∈ [' '], isSpace c = true by decide)
    rw [text, (lead_keyword keyword).parse tag [] (keyword.starts.append _), trimmed,
      if_pos (Or.inr isTag)]
    rfl
  | variadic => decide
  | callback form => exact form.parse_text form.piece

end Form

/-- Signs that stand neither around nor in the arguments of a function pointer. -/
theorem Callback.not_mem (callback : Callback) {sign : Char}
    (apart : isWord sign = false ∧ sign ∉ [' ', '*', '(', ')']) (absent : sign ∉ callback.arguments) :
    sign ∉ callback.text := by
  simp only [List.mem_cons, List.not_mem_nil, or_false, not_or] at apart
  have returns : sign ∉ callback.returns.text :=
    not_mem_of_typeChars callback.returns.chars ⟨apart.1, apart.2.1, apart.2.2.1⟩
  simp [text, tail, returns, callback.name.not_mem apart.1, absent, apart]

theorem Form.not_mem_semicolon (form : Form) : ';' ∉ form.text := by
  rcases form.plain_or_callback with plain | ⟨callback, rfl⟩
  · exact not_mem_of_plain plain (by decide)
  · exact callback.not_mem (by decide) callback.oneDeclaration

/-! ## Lists -/

/-- A list of several pieces holds a comma. -/
theorem joinWith_ne_void {pieces : List Text} (some_piece : pieces ≠ [])
    (notVoid : pieces ≠ ["void".toList]) : joinWith [',', ' '] pieces ≠ "void".toList := by
  intro same
  -- a single piece is the text itself; two are separated by a comma, which the word lacks
  rcases pieces with _ | ⟨piece, _ | ⟨next, others⟩⟩
  · exact some_piece rfl
  · exact notVoid (congrArg (fun text => [text]) same)
  · have comma : ',' ∈ "void".toList := by
      rw [← same, joinWith_cons_of_ne_nil _ _ (by simp)]
      simp
    revert comma
    decide

theorem parseList_joinWith {forms : List Form} (some_form : forms ≠ [])
    (notVoid : forms.map Form.text ≠ ["void".toList]) :
    parseList (joinWith [',', ' '] (forms.map Form.text)) = forms.map Form.parameter := by
  have some_piece : forms.map Form.text ≠ [] := by simpa using some_form
  have each : ∀ piece ∈ forms.map Form.text, Piece piece := by
    intro piece member
    obtain ⟨form, -, rfl⟩ := List.mem_map.mp member
    exact form.piece
  have filled : joinWith [',', ' '] (forms.map Form.text) ≠ [] := by
    have starts : Starts (joinWith [',', ' '] (forms.map Form.text)) :=
      joinWith_starts some_piece each
    exact starts.ne_nil
  rw [parseList, trim_joinWith some_piece each,
    if_neg (not_or.mpr ⟨filled, joinWith_ne_void some_piece notVoid⟩), split_joinWith some_piece each,
    List.filter_eq_self.mpr fun piece member => by simpa using (each piece member).ne_nil,
    List.map_map]
  exact List.map_congr_left fun form _ => form.parse_text

end CHeader.Parameter
