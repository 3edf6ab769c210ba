import CHeader.Console.Display
import CHeader.Proofs.Parameter.Pointer

/-!
# Parameters read back

A parameter that was read is written out as its type, with its name in it if it is a function pointer
and behind it if not. Reading that gives the same parameter: a name behind a blank is found again,
whatever the type in front of it holds, since nothing that follows an earlier blank is a name.

The printed analysis takes every type with the mark `(*` in it for a function pointer and leaves out
the name. A type can have a function pointer inside it and no name.
-/
namespace CHeader.Parameter

open Text

variable {s t returns name arguments : Text}

/-! ## Types with a name -/

theorem isSpace_of_dimensions? {inside : Bool} {sizes : Text}
    (found : dimensions? inside s = some sizes) : ∀ c ∈ sizes, isSpace c = false := by
  fun_induction dimensions? inside s generalizing sizes with
  | case1 =>
    cases found
    simp
  | case2 => cases found
  | case3 rest ih | case6 rest ih =>
    obtain ⟨later, inner, rfl⟩ := Option.map_eq_some_iff.mp found
    exact List.forall_mem_cons.mpr ⟨by decide, ih inner⟩
  | case4 c rest plain space ih | case7 c rest within space ih => exact ih found
  | case5 => cases found
  | case8 c rest within solid ih =>
    obtain ⟨later, inner, rfl⟩ := Option.map_eq_some_iff.mp found
    exact List.forall_mem_cons.mpr ⟨by simpa using solid, ih inner⟩

/-- Where there are dimensions, or a bracket is open, a bracket is closed last. -/
theorem closes_of_dimensions? {inside : Bool} {sizes : Text}
    (found : dimensions? inside s = some sizes) :
    inside = false ∧ sizes = [] ∨ sizes.getLast? = some ']' := by
  fun_induction dimensions? inside s generalizing sizes with
  | case1 =>
    cases found
    exact Or.inl ⟨rfl, rfl⟩
  | case2 => cases found
  | case3 rest ih =>
    obtain ⟨later, inner, rfl⟩ := Option.map_eq_some_iff.mp found
    rcases ih inner with ⟨closed, -⟩ | closes
    · cases closed
    · exact Or.inr (by simp [List.getLast?_cons, closes])
  | case4 c rest plain space ih | case7 c rest within space ih => exact ih found
  | case5 => cases found
  | case6 rest ih =>
    obtain ⟨later, inner, rfl⟩ := Option.map_eq_some_iff.mp found
    rcases ih inner with ⟨-, rfl⟩ | closes
    · exact Or.inr rfl
    · exact Or.inr (by simp [List.getLast?_cons, closes])
  | case8 c rest within solid ih =>
    obtain ⟨later, inner, rfl⟩ := Option.map_eq_some_iff.mp found
    rcases ih inner with ⟨closed, -⟩ | closes
    · cases closed
    · exact Or.inr (by simp [List.getLast?_cons, closes])

/-- Dimensions do not end in a word. -/
theorem dimensions?_word (name : Word) (inside : Bool) (lead : Text) :
    dimensions? inside (lead ++ name.text) = none := by
  -- a word holds no bracket that closes one before it
  have unclosed : ∀ text : Text, (∀ c ∈ text, isWord c = true) → dimensions? true text = none := by
    intro text chars
    induction text with
    | nil => rfl
    | cons c text ih =>
      obtain ⟨here, others⟩ := List.forall_mem_cons.mp chars
      rw [dimensions?, if_neg (ne_of_isWord here (by decide)), isSpace_of_isWord here, ih others]
      rfl
  induction lead generalizing inside with
  | nil =>
    cases inside with
    | true => exact unclosed name.text name.chars
    | false =>
      obtain ⟨c, text, whole⟩ := List.exists_cons_of_ne_nil name.filled
      have first : isWord c = true := name.chars c (whole ▸ List.mem_cons_self)
      rw [whole, List.nil_append, dimensions?, if_neg (ne_of_isWord first (by decide)),
        isSpace_of_isWord first]
      rfl
  | cons c lead ih => cases inside <;> simp [dimensions?, ih]

/-- Only the last separator has nothing but the name behind it. -/
theorem declaration?_word {front : Text} {separator : Char} (oneLine : '\n' ∉ front)
    (separates : (isSpace separator || separator = '*') = true) (name : Word) :
    declaration? (front ++ [separator] ++ name.text) = some (front ++ [separator], name.text, []) := by
  apply Declared.declaration?
  constructor
  case separated => exact ⟨front, separator, rfl, oneLine, separates⟩
  case declarator => simpa [sizesText] using declarator?_word name []
  case shortest =>
    rintro lead more between split - left
    -- the name does not reach over the separator
    have last : separator ∈ more := by
      have ending := congrArg List.getLast? split
      rw [List.getLast?_concat, List.append_cons, List.getLast?_append_of_ne_nil _ left] at ending
      exact List.mem_of_getLast? ending.symm
    have sign : isWord separator = false := by
      rcases (Bool.or_eq_true _ _).mp separates with blank | star
      · exact isWord_of_isSpace blank
      · rw [of_decide_eq_true star]
        decide
    obtain ⟨-, rest⟩ := while_append last sign name.text
    rw [declarator?, word?]
    split
    next => rfl
    next => simp [rest, dimensions?_word]

theorem functionPointer?_getLast? (found : functionPointer? s = some (returns, name, arguments)) :
    s.getLast? = some ')' := by
  obtain ⟨tail, rfl, returned⟩ := exists_returned found
  rw [List.getLast?_append, pointerTail?_getLast? returned.closes]
  rfl

theorem functionPointer?_word (lead : Text) (name : Word) :
    functionPointer? (lead ++ name.text) = none := by
  rw [Option.eq_none_iff_forall_ne_some]
  rintro ⟨returns, pointed, arguments⟩ found
  have closing := functionPointer?_getLast? found
  rw [List.getLast?_append_of_ne_nil lead name.filled] at closing
  exact name.not_mem (by decide) (List.mem_of_getLast? closing)

/-- A name behind a blank is the name of the parameter, whatever its type looks like. -/
theorem parse_word {type : Text} (starts : Starts type) (ends : Ends type) (oneLine : '\n' ∉ type)
    (notTag : type ∉ tagWords) (name : Word) (notType : name.text ∉ typeWords) :
    parse (type ++ ' ' :: name.text) = ⟨type, some name.text⟩ := by
  have trimmed : trim (type ++ ' ' :: name.text) = type ++ [' '] ++ name.text := by
    rw [List.append_cons, trim_eq_self ((starts.append [' ']).append _) (name.ends.append _)]
  have alone : trim (type ++ [' ']) = type := trim_append starts ends (by decide)
  have declared := declaration?_word oneLine (show (isSpace ' ' || ' ' = '*') = true by decide) name
  simp only [parse, trimmed, functionPointer?_word, declared, alone, notType, notTag, or_false,
    ↓reduceIte, List.append_nil]

/-! ## What was read -/

theorem exists_name {sizes : Text} (found : declarator? s = some (name, sizes)) :
    ∃ (word : Word) (rest : Text), name = word.text ∧ s = word.text ++ rest ∧
      dimensions? false rest = some sizes := by
  obtain ⟨⟨_, rest⟩, read, found⟩ := Option.bind_eq_some_iff.mp found
  obtain ⟨_, dimensions, pair⟩ := Option.bind_eq_some_iff.mp found
  cases pair
  obtain ⟨word, rfl, split, -⟩ := exists_word read
  exact ⟨word, rest, rfl, split, dimensions⟩

/-- A type with the dimensions that were read is solid at both ends. It is a tag word only if the
type is one. -/
theorem sized {type rest sizes : Text} (starts : Starts type)
    (found : dimensions? false rest = some sizes) :
    Starts (trim type ++ sizes) ∧ Ends (trim type ++ sizes) ∧
      (trim type ∉ tagWords → trim type ++ sizes ∉ tagWords) := by
  have filled : trim type ≠ [] := by
    rw [trim, starts.trimStart]
    exact trimEnd_ne_nil starts
  refine ⟨(starts_trim filled).append sizes, ?_, fun notTag => ?_⟩
  · obtain rfl | ⟨front, last, rfl⟩ := List.eq_nil_or_concat sizes
    · simpa using ends_trim filled
    · have visible := isSpace_of_dimensions? found last (by simp)
      rw [List.concat_eq_append]
      exact (ends_concat visible front).append _
  · rcases closes_of_dimensions? found with ⟨-, rfl⟩ | closes
    · simpa using notTag
    · intro member
      have signs : ∀ word ∈ tagWords, ']' ∉ word := by decide
      exact signs _ member (List.mem_append_right _ (List.mem_of_getLast? closes))

theorem parse_declared {type sizes : Text} (starts : Starts s) (oneLine : '\n' ∉ s)
    (found : declaration? s = some (type, name, sizes)) (notType : name ∉ typeWords)
    (notTag : trim type ∉ tagWords) :
    parse (trim type ++ sizes ++ ' ' :: name) = ⟨trim type ++ sizes, some name⟩ := by
  obtain ⟨rest, rfl, ⟨front, separator, split, -⟩, declarator, -⟩ := exists_declared found
  obtain ⟨name, rest, rfl, -, dimensions⟩ := exists_name declarator
  have leads : Starts type := starts.of_append (by simp [split])
  have line : '\n' ∉ trim type ++ sizes := by
    rw [List.mem_append, not_or]
    constructor
    · intro member
      exact oneLine (List.mem_append_left _ ((infix_trim type).subset member))
    · intro member
      cases isSpace_of_dimensions? dimensions _ member
  obtain ⟨first, last, untagged⟩ := sized leads dimensions
  exact parse_word first last line (untagged notTag) name notType

theorem length_dimensions? {inside : Bool} {sizes : Text}
    (found : dimensions? inside s = some sizes) : sizes.length ≤ s.length := by
  fun_induction dimensions? inside s generalizing sizes with
  | case1 =>
    cases found
    exact Nat.le_refl 0
  | case2 => cases found
  | case3 rest ih | case6 rest ih =>
    obtain ⟨later, inner, rfl⟩ := Option.map_eq_some_iff.mp found
    exact Nat.succ_le_succ (ih inner)
  | case4 c rest plain space ih | case7 c rest within space ih => exact Nat.le_succ_of_le (ih found)
  | case5 => cases found
  | case8 c rest within solid ih =>
    obtain ⟨later, inner, rfl⟩ := Option.map_eq_some_iff.mp found
    exact Nat.succ_le_succ (ih inner)

/-- The type of a declaration lacks its name. -/
theorem length_type_lt {type sizes : Text} (found : declaration? s = some (type, name, sizes)) :
    (trim type ++ sizes).length < s.length := by
  obtain ⟨_, rfl, declared⟩ := exists_declared found
  obtain ⟨word, rest, -, rfl, dimensions⟩ := exists_name declared.declarator
  have shorter := (infix_trim type).length_le
  have bound := length_dimensions? dimensions
  have filled := List.length_pos_iff.mpr word.filled
  simp only [List.length_append]
  omega

theorem parse_trim (s : Text) : parse (trim s) = parse s := by
  rw [parse, parse, trim_trim]

theorem parse_eq_or (plain : functionPointer? (trim t) = none) :
    parse t = ⟨trim t, none⟩ ∨
      ∃ type name sizes, declaration? (trim t) = some (type, name, sizes) ∧ name ∉ typeWords ∧
        trim type ∉ tagWords ∧ parse t = ⟨trim type ++ sizes, some name⟩ := by
  rw [parse]
  simp only [plain]
  cases declared : declaration? (trim t) with
  | none => exact Or.inl rfl
  | some found =>
    obtain ⟨type, name, sizes⟩ := found
    by_cases refused : name ∈ typeWords ∨ trim type ∈ tagWords
    · exact Or.inl (if_pos refused)
    · rw [not_or] at refused
      refine Or.inr ⟨type, name, sizes, rfl, refused.1, refused.2, ?_⟩
      simp [refused]

/-! ## What is shown -/

theorem parse_type (oneLine : '\n' ∉ t) (pointer : (functionPointer? (trim t)).isSome) :
    parse (parse t).type = parse t := by
  obtain ⟨⟨returns, name, arguments⟩, found⟩ := Option.isSome_iff_exists.mp pointer
  have line : '\n' ∉ trim t := fun member => oneLine ((infix_trim t).subset member)
  have whole : parse t = ⟨pointerType returns name arguments, some name⟩ := by
    simp only [parse, found]
  rw [whole]
  exact parse_pointerType line (trim_trim t) found

theorem parse_type_name (oneLine : '\n' ∉ t) (plain : functionPointer? (trim t) = none) :
    parse (trim ((parse t).type ++ ' ' :: (parse t).name.getD [])) = parse t := by
  rw [parse_trim]
  rcases parse_eq_or plain with unnamed | ⟨type, name, sizes, found, notType, notTag, named⟩
  · -- the type is the whole text, and the blank behind it is trimmed
    have blank : trim (trim t ++ [' ']) = trim t := by
      by_cases filled : trim t = []
      · rw [filled]
        rfl
      · exact trim_append (starts_trim filled) (ends_trim filled) (by decide)
    rw [unnamed, ← parse_trim]
    simp only [Option.getD_none, blank]
    rw [parse_trim, unnamed]
  · have filled : trim t ≠ [] := by
      intro empty
      rw [empty] at found
      cases found
    have line : '\n' ∉ trim t := fun member => oneLine ((infix_trim t).subset member)
    rw [named]
    exact parse_declared (starts_trim filled) line found notType notTag

/-- The mark by which a function pointer is shown as its type alone. -/
theorem occursIn_pointerType (returns name arguments : Text) :
    occursIn ['(', '*'] (pointerType returns name arguments) = true := by
  rw [occursIn_iff]
  exact ⟨returns ++ [' '], name ++ [')', '('] ++ trim arguments ++ [')'], by simp [pointerType]⟩

/-- The parameter has a name of its own that the printed analysis leaves out. -/
structure ShownUnnamed (t : Text) : Prop where
  plain : functionPointer? (trim t) = none
  named : (parse t).name ≠ none
  mark : occursIn ['(', '*'] (parse t).type = true

theorem parameterText_of_shownUnnamed (unnamed : ShownUnnamed t) :
    Console.parameterText (parse t) = (parse t).type := by
  rw [Console.parameterText, if_pos unnamed.mark]

/-- All other parameters are shown as they are written out. -/
theorem parse_parameterText (oneLine : '\n' ∉ t) (shown : ¬ShownUnnamed t) :
    parse (Console.parameterText (parse t)) = parse t := by
  rw [Console.parameterText]
  cases pointer : functionPointer? (trim t) with
  | some found =>
    obtain ⟨returns, name, arguments⟩ := found
    have whole : (parse t).type = pointerType returns name arguments := by
      simp only [parse, pointer]
    rw [whole, occursIn_pointerType, if_pos rfl, ← whole]
    exact parse_type oneLine (by rw [pointer]; rfl)
  | none =>
    split
    next mark =>
      -- the type of an unnamed parameter is its whole text
      have unnamed : (parse t).name = none := by
        by_contra named
        exact shown ⟨pointer, named, mark⟩
      rcases parse_eq_or pointer with whole | ⟨type, name, sizes, -, -, -, named⟩
      · rw [whole]
        exact (parse_trim t).trans whole
      · rw [named] at unnamed
        cases unnamed
    next => exact parse_type_name oneLine pointer

/-- A type is read as itself with a name only if it is a function pointer of that name. -/
theorem functionPointer?_of_parse {type : Text} (same : parse type = ⟨type, some name⟩) :
    ∃ returns arguments, functionPointer? (trim type) = some (returns, name, arguments) ∧
      type = pointerType returns name arguments := by
  cases pointer : functionPointer? (trim type) with
  | some found =>
    obtain ⟨returns, pointed, arguments⟩ := found
    simp only [parse, pointer, Parameter.mk.injEq, Option.some.injEq] at same
    obtain ⟨written, rfl⟩ := same
    exact ⟨returns, arguments, rfl, written.symm⟩
  | none =>
    rcases parse_eq_or pointer with unnamed | ⟨base, word, sizes, found, -, -, named⟩
    · rw [unnamed] at same
      cases congrArg Parameter.name same
    · -- a name behind a type is not part of it
      rw [named, Parameter.mk.injEq] at same
      have shorter := length_type_lt found
      rw [same.1] at shorter
      exact absurd (infix_trim type).length_le (Nat.not_le.mpr shorter)

/-- A parameter is read back from what it is written out as: a function pointer from its type, any
other parameter from its type and name. A parameter that the printed analysis shows as its type alone
is read back from that only if its type is a function pointer of the same name. -/
theorem parse_shown (oneLine : '\n' ∉ t) :
    ((functionPointer? (trim t)).isSome → parse (parse t).type = parse t) ∧
    (functionPointer? (trim t) = none →
      parse (trim ((parse t).type ++ ' ' :: (parse t).name.getD [])) = parse t) ∧
    (ShownUnnamed t → Console.parameterText (parse t) = (parse t).type) ∧
    (parse (Console.parameterText (parse t)) = parse t ↔
      (ShownUnnamed t → ∃ returns name arguments,
        functionPointer? (trim (parse t).type) = some (returns, name, arguments) ∧
        parse t = ⟨pointerType returns name arguments, some name⟩)) := by
  refine ⟨parse_type oneLine, parse_type_name oneLine, parameterText_of_shownUnnamed, ?_⟩
  by_cases unnamed : ShownUnnamed t
  · rw [parameterText_of_shownUnnamed unnamed]
    obtain ⟨name, named⟩ := Option.ne_none_iff_exists'.mp unnamed.named
    constructor
    · intro same _
      have own : parse (parse t).type = ⟨(parse t).type, some name⟩ := by rw [same, ← named]
      obtain ⟨returns, arguments, found, written⟩ := functionPointer?_of_parse own
      exact ⟨returns, name, arguments, found, by rw [← written, ← named]⟩
    · intro pointer
      obtain ⟨returns, name, arguments, found, whole⟩ := pointer unnamed
      rw [parse, found, whole]
  · exact iff_of_true (parse_parameterText oneLine unnamed) fun shown => absurd shown unnamed

theorem parse_shown_callback_and_array :
    '\n' ∉ "void ( *cb)( int )".toList ∧ '\n' ∉ " char  buf [ 64 ]".toList ∧
      parse "void (*cb)(int)".toList = parse "void ( *cb)( int )".toList ∧
      parse "char[64] buf".toList = parse " char  buf [ 64 ]".toList ∧
      parse (Console.parameterText (parse " char  buf [ 64 ]".toList)) =
        parse " char  buf [ 64 ]".toList := by
  refine ⟨by decide, by decide, ?callback, ?array, ?shown⟩
  case callback => exact (parse_shown (t := "void ( *cb)( int )".toList) (by decide)).1 rfl
  case array => exact (parse_shown (t := " char  buf [ 64 ]".toList) (by decide)).2.1 rfl
  case shown =>
    refine (parse_shown (t := " char  buf [ 64 ]".toList) (by decide)).2.2.2.mpr fun unnamed => ?_
    cases unnamed.mark

/-- Inside an atomic type a function pointer has no name. The parameter has one, and is shown without
it. -/
theorem parse_shown_atomic :
    parse "_Atomic(int (*)(int)) cb".toList =
        ⟨"_Atomic(int (*)(int))".toList, some "cb".toList⟩ ∧
      Console.parameterText (parse "_Atomic(int (*)(int)) cb".toList) =
        "_Atomic(int (*)(int))".toList ∧
      parse (Console.parameterText (parse "_Atomic(int (*)(int)) cb".toList)) ≠
        parse "_Atomic(int (*)(int)) cb".toList := by
  have read : parse "_Atomic(int (*)(int)) cb".toList =
      ⟨"_Atomic(int (*)(int))".toList, some "cb".toList⟩ := by decide
  have shown : Console.parameterText ⟨"_Atomic(int (*)(int))".toList, some "cb".toList⟩ =
      "_Atomic(int (*)(int))".toList := by decide
  have unnamed : parse "_Atomic(int (*)(int))".toList =
      ⟨"_Atomic(int (*)(int))".toList, none⟩ := by decide
  rw [read, shown, unnamed]
  exact ⟨rfl, rfl, by decide⟩

end CHeader.Parameter
