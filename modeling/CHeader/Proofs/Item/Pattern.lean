import CHeader.Proofs.Item.Written
import CHeader.Proofs.Prototype.Pointer

/-!
# Written headers and patterns

The patterns find each item of a written header where it stands, and nothing else. No prototype
starts in a record: before a parenthesis there is a sign, or a single word. No record starts in a
prototype: the parenthesis that closes the parameters stands between any brace in them and the
semicolon.
-/
namespace CHeader

open Text

/-! ## Where no prototype starts -/

namespace Prototype

variable {s : Text}

/-- No head starts in a field: a function pointer returns a single word. -/
theorem find?_field (field : IsField s) (gap : Gap) : Head.find? false (gap.text ++ s) = none := by
  rw [find?_gap gap.blank]
  cases field with
  | plain _ _ clean => exact find?_eq_none (clean '(' (by simp)) false
  | @callback returns name pointer arguments stars chars =>
    have found := FunctionPointer.find?_text
      ⟨[returns], List.cons_ne_nil _ _, pointer, stars, name, arguments, chars⟩
    have alone : phrase [returns] = returns.text := rfl
    simpa [FunctionPointer.text, FunctionPointer.tail, FunctionPointer.inside, FunctionPointer.head?,
      FunctionPointer.lastTwo?, alone] using found

/-! ## Prototypes of a written header -/

theorem ofPiece?_eq_none {piece : Text} (nothing : Head.find? false piece = none) :
    ofPiece? piece = none := by
  rw [ofPiece?, nothing, Option.bind_none]

/-- The fields of a record declare no functions. What stands before them is passed, and what stands
behind them up to the semicolon opens no parenthesis. -/
theorem extract_fieldsText (fields : List Item.Field) {lead ending : Text}
    (passed : ∀ piece, Head.find? false (lead ++ piece) = Head.find? false piece)
    (single : ';' ∉ lead ++ ending) (closed : '(' ∉ ending) (rest : Text) :
    extract (lead ++ (Item.fieldsText fields ++ (ending ++ ';' :: rest))) = extract rest := by
  have pieces : Item.fieldsText fields =
      (fields.map fun field => field.gap.text ++ field.text).flatMap (· ++ [';']) := by
    simp [Item.fieldsText, List.flatMap_map]
  have whole : ∀ piece ∈ fields.map fun field => field.gap.text ++ field.text, ';' ∉ piece := by
    intro piece member
    obtain ⟨field, -, rfl⟩ := List.mem_map.mp member
    simp [field.gap.not_mem (show isSpace ';' = false by decide),
      field.form.not_mem (show ';' ∈ [';', '{', '}', '#', '/'] by simp)]
  have nothing : (fields.map fun field => field.gap.text ++ field.text).filterMap ofPiece? = [] := by
    rw [List.filterMap_eq_nil_iff]
    intro piece member
    obtain ⟨field, -, rfl⟩ := List.mem_map.mp member
    exact ofPiece?_eq_none (find?_field field.form field.gap)
  have before (piece : Text) : ofPiece? (lead ++ piece) = ofPiece? piece := by
    rw [ofPiece?, passed, ofPiece?]
  rw [pieces, extract_pieces before single closed whole, nothing, List.nil_append]

theorem extract_record {item : Item} {record : Record} (isRecord : item.record? = some record)
    (gap : Gap) (rest : Text) : extract (gap.text ++ (item.text ++ rest)) = extract rest := by
  obtain ⟨opening, fields, ending, text, before, after⟩ := Item.exists_record isRecord
  have whole : gap.text ++ (item.text ++ rest) =
      (gap.text ++ opening ++ ['{']) ++ (Item.fieldsText fields ++ (ending ++ ';' :: rest)) := by
    simp [text]
  have lead : ∀ c ∈ gap.text ++ opening, isWord c = true ∨ isSpace c = true := by
    intro c member
    rcases List.mem_append.mp member with blank | word
    · exact Or.inr (gap.blank c blank)
    · exact before c word
  rw [whole]
  apply extract_fieldsText
  · -- the brace comes before any parenthesis
    intro piece
    rw [List.append_assoc, List.singleton_append]
    exact find?_skip (mt (lead '(') (by decide)) (by decide) (by decide) false piece
  · have noLead := mt (lead ';') (by decide)
    have noEnding := mt (after ';') (by decide)
    simp only [List.mem_append, not_or] at noLead
    simp [noLead, noEnding]
  · exact mt (after '(') (by decide)

theorem extract_joined (items : List (Gap × Item)) :
    extract (Item.joined items) = items.filterMap (·.2.prototype?) := by
  induction items with
  | nil => rfl
  | cons first items ih =>
    obtain ⟨gap, item⟩ := first
    have whole : Item.joined ((gap, item) :: items) =
        gap.text ++ (item.text ++ Item.joined items) := by simp [Item.joined]
    rw [whole, List.filterMap_cons]
    rcases item.function_or_record with ⟨form, rfl⟩ | ⟨record, isRecord⟩
    · have piece : gap.text ++ ((Item.function form).text ++ Item.joined items) =
          (gap.text ++ form.text) ++ ';' :: Item.joined items := by simp [Item.text]
      have single : ';' ∉ gap.text ++ form.text := by
        simp [gap.not_mem (show isSpace ';' = false by decide), form.not_mem_semicolon]
      have read := ofPiece?_headText form.returns form.stars form.name form.parameters
        form.unreserved.1 form.proper gap
      rw [piece, extract_append single, Item.Function.text, read, ih]
      rfl
    · rw [extract_record isRecord, ih]
      simp only [Item.prototype?_eq_none isRecord]

end Prototype

/-! ## Where no record starts -/

namespace Record

variable {s lead rest after : Text} {record : Record}

/-- A brace is closed by the first brace that follows, and a semicolon comes after it behind words at
most. -/
def Closes (s : Text) : Prop :=
  ∃ body closed after, s = body ++ '}' :: closed ∧ '{' ∉ body ∧ '}' ∉ body ∧
    Past closed (';' :: after)

theorem past_kind? {kind : RecordKind} (found : kind? s = some (kind, rest)) : Past s rest := by
  unfold kind? at found
  split at found
  next after struct =>
    cases found
    exact past_dropLeading? struct (by decide)
  next =>
    obtain ⟨after, union, pair⟩ := Option.map_eq_some_iff.mp found
    cases pair
    exact past_dropLeading? union (by decide)

theorem past_body? {body : Text} (found : body? s = some (body, rest))
    (closing : Past rest (';' :: after)) : ∃ inside, s = '{' :: inside ∧ Closes inside := by
  simp only [body?, Option.bind_eq_bind, Option.bind_eq_some_iff] at found
  obtain ⟨opened, opens, closed, closes, pair⟩ := found
  cases pair
  refine ⟨opened, dropLeading?_eq_some.mp opens, opened.takeWhile isBodyText, rest, after, ?_, ?_, ?_,
    closing⟩
  · have whole := List.takeWhile_append_dropWhile (p := isBodyText) (l := opened)
    rw [dropLeading?_eq_some.mp closes] at whole
    exact whole.symm
  · intro member
    exact absurd (List.mem_takeWhile_imp member) (by decide)
  · intro member
    exact absurd (List.mem_takeWhile_imp member) (by decide)

theorem past_semicolon (found : dropLeading? [';'] (trimStart s) = some rest) :
    Past s (';' :: rest) := by
  have trimmed := past_trimStart s
  rwa [dropLeading?_eq_some.mp found] at trimmed

theorem past_typedef? (found : typedef? s = some (record, rest)) :
    ∃ inside, Past s ('{' :: inside) ∧ Closes inside := by
  simp only [typedef?, Option.bind_eq_bind, Option.bind_eq_some_iff] at found
  obtain ⟨s₁, typedefs, s₂, blanks, ⟨kind, s₃⟩, kinds, ⟨body, s₄⟩, bodies, ⟨name, s₅⟩, names,
    s₆, ends, -⟩ := found
  have closing : Past s₄ (';' :: s₆) :=
    (past_trimStart s₄).trans ((past_word? names).trans (past_semicolon ends))
  obtain ⟨inside, opens, closes⟩ := past_body? bodies closing
  have keyword := (past_dropLeading? typedefs (by decide)).trans
    ((past_blank? blanks).trans (past_kind? kinds))
  -- the tag is passed if there is one
  have tag := (past_trimStart s₃).trans ((past_dropWhile (fun _ => Or.inl) (trimStart s₃)).trans
    (past_trimStart _))
  exact ⟨inside, opens ▸ keyword.trans tag, closes⟩

theorem past_tagged? (found : tagged? s = some (record, rest)) :
    ∃ inside, Past s ('{' :: inside) ∧ Closes inside := by
  simp only [tagged?, Option.bind_eq_bind, Option.bind_eq_some_iff] at found
  obtain ⟨⟨kind, s₁⟩, kinds, s₂, blanks, ⟨tag, s₃⟩, tags, ⟨body, s₄⟩, bodies, s₅, ends, -⟩ := found
  obtain ⟨inside, opens, closes⟩ := past_body? bodies (past_semicolon ends)
  have keyword := (past_kind? kinds).trans ((past_blank? blanks).trans (past_word? tags))
  exact ⟨inside, opens ▸ keyword.trans (past_trimStart s₃), closes⟩

/-- A definition has words before its brace, which is closed. -/
theorem past_definition? (found : definition? s = some (record, rest)) :
    ∃ inside, Past s ('{' :: inside) ∧ Closes inside := by
  unfold definition? at found
  split at found
  next result typedefs =>
    cases found
    exact past_typedef? typedefs
  next => exact past_tagged? found

/-! ## What closes no brace -/

/-- A parenthesis before the semicolon keeps a brace from being closed before it. -/
theorem closes_of_parenthesis (single : ';' ∉ lead)
    (closes : Closes (lead ++ ')' :: ';' :: rest)) : Closes rest := by
  obtain ⟨body, closed, after, whole, noOpening, noClosing, past⟩ := closes
  rcases List.append_eq_append_iff.mp whole with ⟨more, rfl, next⟩ | ⟨more, rfl, next⟩
  · -- the brace that closes stands behind the semicolon
    cases more with
    | nil => cases next
    | cons d more =>
      cases more with
      | nil => cases next
      | cons e more =>
        cases next
        simp only [List.mem_append, List.mem_cons, not_or] at noOpening noClosing
        exact ⟨more, closed, after, rfl, noOpening.2.2.2, noClosing.2.2.2, past⟩
  · -- it stands before the parenthesis, which no word passes on the way to a semicolon
    cases more with
    | nil => cases next
    | cons d more =>
      cases next
      rcases past.mem_or_eq rfl (by decide) with inside | same
      · exact absurd (by simp [inside]) single
      · cases same

theorem not_closes_of_brace (noClosing : '}' ∉ lead) : ¬Closes (lead ++ '{' :: rest) := by
  rintro ⟨body, closed, after, whole, noOpening, -, -⟩
  rcases List.append_eq_append_iff.mp whole with ⟨more, rfl, next⟩ | ⟨more, rfl, next⟩
  · cases more with
    | nil => cases next
    | cons d more =>
      cases next
      simp at noOpening
  · cases more with
    | nil => cases next
    | cons d more =>
      cases next
      simp at noClosing

theorem not_closes_joined (items : List (Gap × Item)) : ¬Closes (Item.joined items) := by
  induction items with
  | nil =>
    rintro ⟨body, closed, after, whole, -⟩
    simp [Item.joined] at whole
  | cons first items ih =>
    obtain ⟨gap, item⟩ := first
    rcases item.function_or_record with ⟨form, rfl⟩ | ⟨record, isRecord⟩
    · obtain ⟨before, whole, single⟩ := form.exists_parenthesis
      have joined : Item.joined ((gap, .function form) :: items) =
          (gap.text ++ before) ++ ')' :: ';' :: Item.joined items := by
        simp [Item.joined, Item.text, whole]
      rw [joined]
      -- a brace before the prototype would be closed behind it
      refine fun closes => ih (closes_of_parenthesis ?_ closes)
      simp [single, gap.not_mem (show isSpace ';' = false by decide)]
    · obtain ⟨opening, fields, ending, text, before, -⟩ := Item.exists_record isRecord
      have joined : Item.joined ((gap, item) :: items) = (gap.text ++ opening) ++
          '{' :: (Item.fieldsText fields ++ (ending ++ ';' :: Item.joined items)) := by
        simp [Item.joined, text]
      -- the record opens a brace of its own first
      rw [joined]
      apply not_closes_of_brace
      intro member
      rcases List.mem_append.mp member with blank | word
      · exact gap.not_mem (by decide) blank
      · exact absurd (before _ word) (by decide)

/-! ## Records of a written header -/

theorem definition?_parenthesis (single : ';' ∉ lead) (unclosed : ¬Closes rest) :
    definition? (lead ++ ')' :: ';' :: rest) = none := by
  rw [Option.eq_none_iff_forall_ne_some]
  rintro ⟨record, after⟩ found
  obtain ⟨inside, ⟨passed, whole, chars⟩, closes⟩ := past_definition? found
  rcases List.append_eq_append_iff.mp whole with ⟨more, rfl, next⟩ | ⟨more, rfl, next⟩
  · -- the parenthesis is not passed on the way to the brace
    cases more with
    | nil => cases next
    | cons c more =>
      simp only [List.cons_append, List.cons.injEq] at next
      obtain ⟨rfl, -⟩ := next
      exact absurd (chars ')' (by simp)) (by decide)
  · cases more with
    | nil => cases next
    | cons c more =>
      cases next
      apply unclosed
      apply closes_of_parenthesis _ closes
      exact fun member => single (by simp [member])

theorem definition?_sign {c : Char} (barrier : ¬IsPassed c) (other : c ≠ '{') (rest : Text) :
    definition? (c :: rest) = none := by
  rw [Option.eq_none_iff_forall_ne_some]
  rintro ⟨record, after⟩ found
  obtain ⟨inside, past, -⟩ := past_definition? found
  rcases past.mem_or_eq (t := []) rfl barrier with nothing | same
  · cases nothing
  · exact other same.symm

/-- No definition starts in a prototype. -/
theorem extractFrom_parenthesis (single : ';' ∉ lead) (unclosed : ¬Closes rest)
    (afterWord : Bool) :
    extractFrom afterWord (lead ++ ')' :: ';' :: rest) = extractFrom false rest := by
  have nothing := definition?_parenthesis single unclosed
  induction lead generalizing afterWord with
  | nil =>
    rw [List.nil_append, extractFrom_of_none nothing,
      extractFrom_of_none (definition?_sign (by decide) (by decide) rest)]
    rfl
  | cons c lead ih =>
    have later : ';' ∉ lead := fun member => single (List.mem_cons_of_mem c member)
    rw [List.cons_append] at nothing ⊢
    rw [extractFrom_of_none nothing]
    -- what is left still runs to the parenthesis
    exact ih later _ (definition?_parenthesis later unclosed)

theorem isBodyText_body (body : Item.Body) : ∀ c ∈ body.text, isBodyText c = true := by
  have absent (sign : Char) (member : sign ∈ ['{', '}', '#', '/']) (solid : isSpace sign = false) :
      sign ∉ body.text := by
    rw [Item.Body.text, List.mem_append, not_or]
    exact ⟨Item.not_mem_fieldsText body.fields member, body.closing.not_mem solid⟩
  intro c member
  have opening : c ≠ '{' := fun same => absent '{' (by simp) (by decide) (same ▸ member)
  have closing : c ≠ '}' := fun same => absent '}' (by simp) (by decide) (same ▸ member)
  simp [isBodyText, opening, closing]

theorem extract_joined (items : List (Gap × Item)) :
    extract (Item.joined items) = items.filterMap (·.2.record?) := by
  rw [extract]
  induction items with
  | nil =>
    have nothing : Item.joined [] = [] := rfl
    rw [nothing, extractFrom]
    rfl
  | cons first items ih =>
    obtain ⟨gap, item⟩ := first
    have whole : Item.joined ((gap, item) :: items) =
        gap.text ++ (item.text ++ Item.joined items) := by simp [Item.joined]
    rw [whole, extractFrom_gap, List.filterMap_cons]
    cases item with
    | function form =>
      obtain ⟨before, text, single⟩ := form.exists_parenthesis
      have closing : (Item.function form).text ++ Item.joined items =
          before ++ ')' :: ';' :: Item.joined items := by simp [Item.text, text]
      rw [closing, extractFrom_parenthesis single (not_closes_joined items), ih]
      rfl
    | typedef kind tag body name =>
      have read := definition?_typedefText kind (isBodyText_body body) (Item.joined items) tag name
      rw [Item.text, extractFrom_of_some read, ih, Item.Body.text, Item.fieldsOf_fieldsText]
      rfl
    | tagged kind tag body =>
      have read := definition?_taggedText kind (isBodyText_body body) (Item.joined items) tag
      rw [Item.text, extractFrom_of_some read, ih, Item.Body.text, Item.fieldsOf_fieldsText]
      rfl

end Record

end CHeader
