import CHeader.Proofs.Json.Escape
import CHeader.Proofs.Text.Word
import Mathlib.Data.List.TakeWhile

/-!
# Documents are read as they were written

A document without numbers is read back from its text, whatever follows it. Each item and each member
is read by a step of its own, with what is left of the text handed on, and the steps taken are fewer
than twice the characters.
-/
namespace CHeader.JsonValue

open Text

/-- Documents without numbers in them. -/
inductive Numberless : JsonValue → Prop
  | null : Numberless .null
  | bool (value : Bool) : Numberless (.bool value)
  | string (value : Text) : Numberless (.string value)
  | array {items : List JsonValue} (each : ∀ item ∈ items, Numberless item) :
      Numberless (.array items)
  | object {members : List (Text × JsonValue)} (each : ∀ member ∈ members, Numberless member.2) :
      Numberless (.object members)

theorem numberless_strings (items : List Text) : Numberless (.strings items) := by
  refine .array fun item member => ?_
  obtain ⟨value, -, rfl⟩ := List.mem_map.mp member
  exact .string value

variable {escapes : JsonEscapes} {value item : JsonValue} {name inner after rest later : Text}
variable {ε : Type} {host : Host ε} {fuel depth level : Nat}

/-! ## Where documents start -/

/-- The characters that documents without numbers start with. -/
def openers : Text := ['"', '[', '{', 'n', 't', 'f']

def Opens (s : Text) : Prop := ∃ c ∈ openers, ∃ tail, s = c :: tail

theorem solid_of_opener : ∀ c ∈ openers, isBlank c = false := by decide

theorem Opens.append {s : Text} (opens : Opens s) (more : Text) : Opens (s ++ more) := by
  obtain ⟨c, opener, tail, rfl⟩ := opens
  exact ⟨c, opener, tail ++ more, rfl⟩

theorem opens_render (escapes : JsonEscapes) (depth : Nat) (numberless : Numberless value) :
    Opens (render escapes depth value) := by
  have opening {c : Char} (tail : Text) (opener : c ∈ openers) : Opens (c :: tail) :=
    ⟨c, opener, tail, rfl⟩
  cases numberless with
  | null => exact opening _ (by decide)
  | bool value => cases value <;> exact opening _ (by decide)
  | string => exact opening _ (by decide)
  | @array items => cases items <;> rw [render] <;> exact opening _ (by decide)
  | @object members => cases members <;> rw [render] <;> exact opening _ (by decide)

theorem skipBlank_cons {c : Char} (solid : isBlank c = false) (rest : Text) :
    skipBlank (c :: rest) = c :: rest :=
  List.dropWhile_cons_of_neg (by simp [solid])

/-- Blanks in front of a document are skipped up to it. -/
theorem skipBlank_indentation {c : Char} (solid : isBlank c = false) (depth : Nat) (rest : Text) :
    skipBlank (indentation depth ++ c :: rest) = c :: rest := by
  have blank : ∀ c ∈ indentation depth, isBlank c = true := by
    intro c member
    rcases List.mem_cons.mp member with rfl | inside
    · decide
    · rw [List.eq_of_mem_replicate inside]
      decide
  rw [skipBlank, List.dropWhile_append_of_pos blank]
  exact skipBlank_cons solid rest

theorem skipBlank_opens {s : Text} (opens : Opens s) (depth : Nat) :
    skipBlank (indentation depth ++ s) = s := by
  obtain ⟨c, opener, tail, rfl⟩ := opens
  exact skipBlank_indentation (solid_of_opener c opener) depth tail

/-! ## One step of reading -/

theorem valueAt_string (s : Text) :
    valueAt host (fuel + 1) level (renderString escapes s ++ rest) = .ok (.string s, rest) := by
  rw [renderString, List.append_assoc, List.cons_append, valueAt, List.singleton_append,
    stringAfterQuote_written]
  rfl

theorem valueAt_array {items : List JsonValue} (room : host.nest level .square = none)
    (opens : Opens (skipBlank inner))
    (read : itemsAt host fuel (level + 1) (skipBlank inner) = .ok (items, rest)) :
    valueAt host (fuel + 1) level ('[' :: inner) = .ok (.array items, rest) := by
  obtain ⟨c, opener, tail, same⟩ := opens
  rw [valueAt, room]
  dsimp only
  split
  next closed =>
    rw [same] at closed
    obtain ⟨rfl, -⟩ := List.cons.inj closed
    exact absurd opener (by decide)
  next =>
    rw [read]
    rfl

theorem valueAt_object {members : List (Text × JsonValue)} (room : host.nest level .curly = none)
    (opens : Opens (skipBlank inner))
    (read : membersAt host fuel (level + 1) (skipBlank inner) = .ok (members, rest)) :
    valueAt host (fuel + 1) level ('{' :: inner) = .ok (.object members, rest) := by
  obtain ⟨c, opener, tail, same⟩ := opens
  rw [valueAt, room]
  dsimp only
  split
  next closed =>
    rw [same] at closed
    obtain ⟨rfl, -⟩ := List.cons.inj closed
    exact absurd opener (by decide)
  next =>
    rw [read]
    rfl

theorem itemsAt_last (read : valueAt host fuel level inner = .ok (item, rest))
    (ends : skipBlank rest = ']' :: after) :
    itemsAt host (fuel + 1) level inner = .ok ([item], after) := by
  rw [itemsAt]
  simp only [read, ends]

theorem itemsAt_more {items : List JsonValue} (read : valueAt host fuel level inner = .ok (item, rest))
    (continues : skipBlank rest = ',' :: later)
    (others : itemsAt host fuel level (skipBlank later) = .ok (items, after)) :
    itemsAt host (fuel + 1) level inner = .ok (item :: items, after) := by
  rw [itemsAt]
  simp only [read, continues, others]
  rfl

theorem skipBlank_space (opens : Opens inner) : skipBlank (' ' :: inner) = inner := by
  obtain ⟨c, opener, tail, rfl⟩ := opens
  exact skipBlank_cons (solid_of_opener c opener) tail

theorem skipBlank_colon (rest : Text) : skipBlank (':' :: rest) = ':' :: rest :=
  skipBlank_cons rfl rest

theorem membersAt_last (opens : Opens inner) (read : valueAt host fuel level inner = .ok (value, rest))
    (ends : skipBlank rest = '}' :: after) :
    membersAt host (fuel + 1) level (renderString escapes name ++ ':' :: ' ' :: inner) =
      .ok ([(name, value)], after) := by
  rw [renderString, List.append_assoc, List.cons_append, List.singleton_append, membersAt]
  simp only [stringAfterQuote_written, skipBlank_colon, skipBlank_space opens, read, ends]

theorem membersAt_more {members : List (Text × JsonValue)} (opens : Opens inner)
    (read : valueAt host fuel level inner = .ok (value, rest))
    (continues : skipBlank rest = ',' :: later)
    (others : membersAt host fuel level (skipBlank later) = .ok (members, after)) :
    membersAt host (fuel + 1) level (renderString escapes name ++ ':' :: ' ' :: inner) =
      .ok ((name, value) :: members, after) := by
  rw [renderString, List.append_assoc, List.cons_append, List.singleton_append, membersAt]
  simp only [stringAfterQuote_written, skipBlank_colon, skipBlank_space opens, read, continues,
    others]
  rfl

/-! ## Whole documents -/

/-- A value is read from its text whatever follows it and however many brackets are open, in steps
that the length of the text bounds. -/
def Reads (host : Host ε) (escapes : JsonEscapes) (value : JsonValue) : Prop :=
  ∀ depth level rest fuel, 2 * (render escapes depth value).length < fuel →
    valueAt host fuel level (render escapes depth value ++ rest) = .ok (value, rest)

theorem reads_of_succ (step : ∀ depth level rest fuel,
    2 * (render escapes depth value).length ≤ fuel →
    valueAt host (fuel + 1) level (render escapes depth value ++ rest) = .ok (value, rest)) :
    Reads host escapes value := by
  intro depth level rest fuel enough
  obtain ⟨fuel, rfl⟩ : ∃ less, fuel = less + 1 := ⟨fuel - 1, by omega⟩
  exact step depth level rest fuel (by omega)

theorem itemsAt_render {items : List JsonValue}
    (reads : ∀ value ∈ item :: items, Numberless value ∧ Reads host escapes value)
    (enough : 2 * ((render escapes depth item).length +
      (renderItems escapes depth items).length) + 1 < fuel) (outer : Nat) :
    itemsAt host fuel level (render escapes depth item ++ (renderItems escapes depth items ++
      (indentation outer ++ ']' :: rest))) = .ok (item :: items, rest) := by
  obtain ⟨fuel, rfl⟩ : ∃ less, fuel = less + 1 := ⟨fuel - 1, by omega⟩
  induction items generalizing item fuel with
  | nil =>
    obtain ⟨⟨-, first⟩, -⟩ := List.forall_mem_cons.mp reads
    refine itemsAt_last (first depth _ _ fuel (by omega)) ?_
    exact skipBlank_indentation rfl outer rest
  | cons next items ih =>
    obtain ⟨⟨-, first⟩, others⟩ := List.forall_mem_cons.mp reads
    have opens := opens_render escapes depth (others next (by simp)).1
    rw [renderItems] at enough ⊢
    simp only [List.length_append, List.length_cons, List.append_assoc, List.cons_append] at enough ⊢
    obtain ⟨fuel, rfl⟩ : ∃ less, fuel = less + 1 := ⟨fuel - 1, by omega⟩
    -- a comma follows, and behind it the next item on a line of its own
    refine itemsAt_more (first depth _ _ _ (by omega)) (skipBlank_cons rfl _) ?_
    rw [skipBlank_opens (opens.append _)]
    exact ih others fuel (by omega)

theorem membersAt_render {key : Text} {members : List (Text × JsonValue)}
    (reads : ∀ member ∈ (key, value) :: members, Numberless member.2 ∧ Reads host escapes member.2)
    (enough : 2 * ((render escapes depth value).length +
      (renderMembers escapes depth members).length) + 1 < fuel) (outer : Nat) :
    membersAt host fuel level (renderString escapes key ++ ':' :: ' ' :: (render escapes depth value ++
      (renderMembers escapes depth members ++ (indentation outer ++ '}' :: rest)))) =
      .ok ((key, value) :: members, rest) := by
  obtain ⟨fuel, rfl⟩ : ∃ less, fuel = less + 1 := ⟨fuel - 1, by omega⟩
  induction members generalizing key value fuel with
  | nil =>
    obtain ⟨⟨numberless, first⟩, -⟩ := List.forall_mem_cons.mp reads
    have opens := opens_render escapes depth numberless
    refine membersAt_last (opens.append _) (first depth _ _ fuel ?_) ?_
    · dsimp only
      omega
    · exact skipBlank_indentation rfl outer rest
  | cons next members ih =>
    obtain ⟨nextKey, nextValue⟩ := next
    obtain ⟨⟨numberless, first⟩, others⟩ := List.forall_mem_cons.mp reads
    have opens := opens_render escapes depth numberless
    rw [renderMembers] at enough ⊢
    simp only [List.length_append, List.length_cons, List.append_assoc, List.cons_append,
      List.nil_append] at enough ⊢
    obtain ⟨fuel, rfl⟩ : ∃ less, fuel = less + 1 := ⟨fuel - 1, by omega⟩
    refine membersAt_more (opens.append _) (first depth _ _ _ ?_) (skipBlank_cons rfl _) ?_
    · dsimp only
      omega
    · -- behind the comma the next member begins with its name
      have quoted : Opens (renderString escapes nextKey) :=
        opens_render escapes depth (.string nextKey)
      rw [skipBlank_opens (quoted.append _)]
      exact ih others fuel (by omega)

/-- A document without numbers is read from its text. -/
theorem reads_of_numberless (room : ∀ level bracket, host.nest level bracket = none)
    (escapes : JsonEscapes) (numberless : Numberless value) : Reads host escapes value := by
  -- the brackets take one step, so that enough are left for what is inside
  induction numberless with
  | null =>
    exact reads_of_succ fun depth level rest fuel enough => rfl
  | bool value =>
    refine reads_of_succ fun depth level rest fuel enough => ?_
    cases value <;> rfl
  | string value =>
    exact reads_of_succ fun depth level rest fuel enough => valueAt_string value
  | @array items each ih =>
    refine reads_of_succ fun depth level rest fuel enough => ?_
    cases items with
    | nil =>
      change valueAt host (fuel + 1) level ('[' :: ']' :: rest) = _
      rw [valueAt, room]
      rfl
    | cons item items =>
      have opens := opens_render escapes (depth + 1) (each item List.mem_cons_self)
      rw [render] at enough ⊢
      simp only [List.length_append, List.length_cons, List.append_assoc, List.cons_append,
        List.nil_append] at enough ⊢
      refine valueAt_array (room _ _) ?_ ?_
      · rw [skipBlank_opens (opens.append _)]
        exact opens.append _
      · rw [skipBlank_opens (opens.append _)]
        exact itemsAt_render (fun value member => ⟨each value member, ih value member⟩) (by omega) _
  | @object members each ih =>
    refine reads_of_succ fun depth level rest fuel enough => ?_
    cases members with
    | nil =>
      change valueAt host (fuel + 1) level ('{' :: '}' :: rest) = _
      rw [valueAt, room]
      rfl
    | cons member members =>
      obtain ⟨key, value⟩ := member
      have opens : Opens (renderString escapes key) := opens_render escapes depth (.string key)
      rw [render] at enough ⊢
      simp only [List.length_append, List.length_cons, List.append_assoc, List.cons_append,
        List.nil_append] at enough ⊢
      refine valueAt_object (room _ _) ?_ ?_
      · rw [skipBlank_opens (opens.append _)]
        exact opens.append _
      · rw [skipBlank_opens (opens.append _)]
        exact membersAt_render (fun value member => ⟨each value member, ih value member⟩)
          (by omega) _

/-- Where there is room for all brackets, a document without numbers, with blanks behind it, is all
that is read from its text. -/
theorem parse_render (room : ∀ level bracket, host.nest level bracket = none)
    (numberless : Numberless value) {blanks : Text} (blank : ∀ c ∈ blanks, isBlank c = true) :
    parse host (render escapes depth value ++ blanks) = .ok (.ok value) := by
  have opens := (opens_render escapes depth numberless).append blanks
  -- no document starts with the mark of the byte order
  have start : (render escapes depth value ++ blanks).head? ≠ some '\uFEFF' := by
    obtain ⟨c, opener, tail, same⟩ := opens
    rw [same, List.head?_cons]
    rintro ⟨⟩
    exact absurd opener (by decide)
  have front : skipBlank (render escapes depth value ++ blanks) =
      render escapes depth value ++ blanks := by
    obtain ⟨c, opener, tail, same⟩ := opens
    rw [same]
    exact skipBlank_cons (solid_of_opener c opener) tail
  have behind : skipBlank blanks = [] := List.dropWhile_eq_nil_iff.mpr blank
  have read := reads_of_numberless room escapes numberless depth 0 blanks
    (2 * (render escapes depth value ++ blanks).length + 2) (by
      rw [List.length_append]
      omega)
  unfold parse
  simp only [if_neg start, front, read, behind]

end CHeader.JsonValue
