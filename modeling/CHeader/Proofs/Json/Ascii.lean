import CHeader.Proofs.Json.RoundTrip

/-!
# Documents in ASCII

Escaping all that is not printable ASCII leaves a text of printable characters and line feeds.
-/
namespace CHeader.JsonValue

open Text

variable {c : Char} {value : JsonValue}

/-- A printable character or a line feed. -/
def IsDocumentChar (c : Char) : Prop := c = '\n' ∨ 32 ≤ c.toNat ∧ c.toNat < 127

instance (c : Char) : Decidable (IsDocumentChar c) := inferInstanceAs (Decidable (_ ∨ _))

/-- A text of printable characters and line feeds. -/
def IsDocumentText (s : Text) : Prop := ∀ c ∈ s, IsDocumentChar c

instance (s : Text) : Decidable (IsDocumentText s) := decidableForallMem s

@[simp] theorem isDocumentText_nil : IsDocumentText [] := by
  intro c member
  cases member

@[simp] theorem isDocumentText_cons {s : Text} :
    IsDocumentText (c :: s) ↔ IsDocumentChar c ∧ IsDocumentText s :=
  List.forall_mem_cons

@[simp] theorem isDocumentText_append {s t : Text} :
    IsDocumentText (s ++ t) ↔ IsDocumentText s ∧ IsDocumentText t :=
  List.forall_mem_append

theorem isDocumentChar_digitChar : ∀ digit < 16, IsDocumentChar (Nat.digitChar digit) := by decide

theorem isDocumentText_unicodeEscape {unit : Nat} (bound : unit < 0x10000) :
    IsDocumentText (unicodeEscape unit) := by
  have digit (n : Nat) (small : n < 16) := isDocumentChar_digitChar n small
  rw [unicodeEscape, hex_four bound]
  simp only [isDocumentText_cons, isDocumentText_nil, and_true]
  exact ⟨by decide, by decide, digit _ (by omega), digit _ (by omega), digit _ (by omega),
    digit _ (by omega)⟩

theorem isDocumentText_unitEscapes (c : Char) : IsDocumentText (unitEscapes c) := by
  have whole := toNat_cases c
  unfold unitEscapes
  split
  next small => exact isDocumentText_unicodeEscape small
  next =>
    rw [isDocumentText_append]
    exact ⟨isDocumentText_unicodeEscape (by omega), isDocumentText_unicodeEscape (by omega)⟩

theorem isDocumentChar_letter {letter : Char} (escape : simpleEscape? letter = some c) :
    IsDocumentChar letter := by
  unfold simpleEscape? at escape
  split at escape
  all_goals first
    | decide
    | cases escape

theorem Escaped.isDocumentText {written : Text} (escaped : Escaped .ascii c written) :
    IsDocumentText written := by
  cases escaped with
  | letter escape =>
    have backslash : IsDocumentChar '\\' := by decide
    simp [backslash, isDocumentChar_letter escape]
  | units => exact isDocumentText_unitEscapes c
  | plain noMark noBackslash visible ascii =>
    exact List.forall_mem_singleton.mpr (Or.inr ⟨visible, ascii rfl⟩)

theorem isDocumentText_renderString (s : Text) : IsDocumentText (renderString .ascii s) := by
  have inside : IsDocumentText (s.flatMap (escapeChar .ascii)) := by
    intro c member
    obtain ⟨written, -, among⟩ := List.mem_flatMap.mp member
    exact (escaped_escapeChar .ascii written).isDocumentText c among
  simp only [renderString, List.cons_append, isDocumentText_cons, isDocumentText_append,
    isDocumentText_nil, inside]
  decide

theorem isDocumentText_indentation (depth : Nat) : IsDocumentText (indentation depth) := by
  refine isDocumentText_cons.mpr ⟨Or.inl rfl, fun c member => ?_⟩
  rw [List.eq_of_mem_replicate member]
  decide

theorem isDocumentText_renderItems {items : List JsonValue} (depth : Nat)
    (each : ∀ item ∈ items, ∀ depth, IsDocumentText (render .ascii depth item)) :
    IsDocumentText (renderItems .ascii depth items) := by
  induction items with
  | nil => exact isDocumentText_nil
  | cons item items ih =>
    obtain ⟨first, others⟩ := List.forall_mem_cons.mp each
    simp only [renderItems, List.cons_append, isDocumentText_cons, isDocumentText_append,
      isDocumentText_indentation, first, ih others]
    decide

theorem isDocumentText_renderMembers {members : List (Text × JsonValue)} (depth : Nat)
    (each : ∀ member ∈ members, ∀ depth, IsDocumentText (render .ascii depth member.2)) :
    IsDocumentText (renderMembers .ascii depth members) := by
  induction members with
  | nil => exact isDocumentText_nil
  | cons member members ih =>
    obtain ⟨key, value⟩ := member
    obtain ⟨first, others⟩ := List.forall_mem_cons.mp each
    simp only [renderMembers, List.cons_append, isDocumentText_cons,
      isDocumentText_append, isDocumentText_indentation, isDocumentText_renderString, first,
      ih others]
    decide

/-- A document without numbers is written in printable characters and line feeds. -/
theorem isDocumentText_render (numberless : Numberless value) (depth : Nat) :
    IsDocumentText (render .ascii depth value) := by
  induction numberless generalizing depth with
  | null => exact (by decide : IsDocumentText "null".toList)
  | bool value => cases value <;> simp only [render] <;> decide
  | string value => exact isDocumentText_renderString value
  | @array items each ih =>
    cases items with
    | nil =>
      simp only [render]
      decide
    | cons item items =>
      obtain ⟨first, others⟩ := List.forall_mem_cons.mp ih
      simp only [render, List.cons_append, isDocumentText_cons,
        isDocumentText_append, isDocumentText_indentation, isDocumentText_nil, first,
        isDocumentText_renderItems _ others]
      decide
  | @object members each ih =>
    cases members with
    | nil =>
      simp only [render]
      decide
    | cons member members =>
      obtain ⟨key, value⟩ := member
      obtain ⟨first, others⟩ := List.forall_mem_cons.mp ih
      simp only [render, List.cons_append, isDocumentText_cons,
        isDocumentText_append, isDocumentText_indentation, isDocumentText_renderString,
        isDocumentText_nil, first, isDocumentText_renderMembers _ others]
      decide

end CHeader.JsonValue
