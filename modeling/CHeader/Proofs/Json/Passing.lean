import CHeader.Proofs.Json.Grammar

/-!
# Where reading goes on

Of what is read of a value only the text behind it matters here. The reader of items and that of
members differ in what they take in front of a value; behind it both look for a comma or for the
bracket that closes.
-/
namespace CHeader.JsonValue

open Text

variable {ε : Type} {host : Host ε} {c : Char} {s rest after : Text} {bracket : Bracket}
variable {fuel depth : Nat}

/-! ## Words -/

theorem known_of_namedValue? {value : JsonValue} (found : namedValue? s = some (value, rest)) :
    ∃ word, (word, value) ∈ namedValues ∧ s = word ++ rest := by
  obtain ⟨⟨word, named⟩, known, read⟩ := List.exists_of_findSome?_eq_some found
  obtain ⟨after, dropped, same⟩ := Option.map_eq_some_iff.mp read
  cases same
  exact ⟨word, known, dropLeading?_eq_some.mp dropped⟩

theorem namedValue?_append {word : Text} {value : JsonValue} (known : (word, value) ∈ namedValues)
    (rest : Text) : namedValue? (word ++ rest) = some (value, rest) := by
  simp only [namedValues, List.mem_cons, Prod.mk.injEq, List.not_mem_nil, or_false] at known
  rcases known with ⟨rfl, rfl⟩ | ⟨rfl, rfl⟩ | ⟨rfl, rfl⟩ | ⟨rfl, rfl⟩ | ⟨rfl, rfl⟩ | ⟨rfl, rfl⟩ <;>
    rfl

theorem not_isDigit_of_letter (letter : c ∈ letters) : c.isDigit ≠ true := by
  simp only [letters, List.mem_cons, List.not_mem_nil, or_false] at letter
  rcases letter with rfl | rfl | rfl | rfl | rfl <;> decide

/-- No word starts with a digit, behind a minus sign or not. -/
theorem namedValue?_number {minus whole : Text} (negative : minus = [] ∨ minus = ['-'])
    (digits : IsWhole whole) (rest : Text) : namedValue? (minus ++ (whole ++ rest)) = none := by
  obtain ⟨d, others, same, digit⟩ := digits.head_isDigit rest
  rw [Option.eq_none_iff_forall_ne_some, same]
  rintro ⟨value, after⟩ found
  obtain ⟨word, known, start⟩ := known_of_namedValue? found
  obtain ⟨mark, c, tail, marked, letter, rfl⟩ := exists_letter known
  rcases negative with rfl | rfl <;> rcases marked with rfl | rfl <;>
    simp only [List.nil_append, List.cons_append, List.cons.injEq, true_and] at start
  · obtain ⟨rfl, -⟩ := start
    exact not_isDigit_of_letter letter digit
  · obtain ⟨rfl, -⟩ := start
    cases digit
  · obtain ⟨rfl, -⟩ := start
    exact absurd letter (by decide)
  · obtain ⟨rfl, -⟩ := start
    exact not_isDigit_of_letter letter digit

/-! ## Values within brackets -/

/-- Where reading goes on behind a value, or behind the closing bracket. -/
def passes (host : Host ε) : Option Bracket → (fuel depth : Nat) → Text → Except (Halt ε) Text
  | none, fuel, depth, s => left (valueAt host fuel depth s)
  | some .square, fuel, depth, s => left (itemsAt host fuel depth s)
  | some .curly, fuel, depth, s => left (membersAt host fuel depth s)

theorem left_reading {α : Type} (step : Step α) :
    left (step.reading : Reading ε α) = (left step).mapError .stop := by
  cases step <;> rfl

/-- Where the value starts: here, or behind the name of a member. -/
def introduced : Bracket → Text → Except Stop Text
  | .square, s => .ok s
  | .curly, '"' :: named =>
    match left (stringAfterQuote named) with
    | .error stop => .error stop
    | .ok rest =>
      match skipBlank rest with
      | ':' :: behind => .ok (skipBlank behind)
      | other => .error (.fault .expectingColon other.length)
  | .curly, other => .error (.fault .expectingName other.length)

/-- What is neither a string nor has brackets. -/
def plainly (s : Text) : Except Stop Text :=
  match namedValue? s with
  | some found => .ok found.2
  | none => left (number s)

theorem passes_nil :
    passes host none (fuel + 1) depth [] = .error (.stop (.fault .expectingValue 0)) := by
  simp [passes, valueAt, left, Except.map]

theorem passes_string (s : Text) :
    passes host none (fuel + 1) depth ('"' :: s) = (left (stringAfterQuote s)).mapError .stop := by
  rw [passes, valueAt, ← left_reading]
  exact left_map (f := fun pair => (JsonValue.string pair.1, pair.2)) (fun _ => rfl) _

theorem passes_full {cause : ε} (full : host.nest depth bracket = some cause) :
    passes host none (fuel + 1) depth (bracket.opening :: s) = .error (.host cause) := by
  cases bracket <;> simp only [Bracket.opening, passes, valueAt, full] <;> rfl

theorem passes_empty (room : host.nest depth bracket = none)
    (closed : skipBlank s = bracket.closing :: rest) :
    passes host none (fuel + 1) depth (bracket.opening :: s) = .ok rest := by
  cases bracket with
  | square =>
    change skipBlank s = ']' :: rest at closed
    simp only [Bracket.opening, passes, valueAt, room, closed]
    rfl
  | curly =>
    change skipBlank s = '}' :: rest at closed
    simp only [Bracket.opening, passes, valueAt, room, closed]
    rfl

theorem passes_filled (room : host.nest depth bracket = none)
    (filled : ∀ rest, skipBlank s ≠ bracket.closing :: rest) :
    passes host none (fuel + 1) depth (bracket.opening :: s) =
      passes host (some bracket) fuel (depth + 1) (skipBlank s) := by
  cases bracket with
  | square =>
    simp only [Bracket.opening, passes, valueAt, room]
    split
    next after same => exact absurd same (filled after)
    next => exact left_map (f := fun pair => (JsonValue.array pair.1, pair.2)) (fun _ => rfl) _
  | curly =>
    simp only [Bracket.opening, passes, valueAt, room]
    split
    next after same => exact absurd same (filled after)
    next => exact left_map (f := fun pair => (JsonValue.object pair.1, pair.2)) (fun _ => rfl) _

theorem passes_plain (noMark : c ≠ '"') (noBracket : ∀ bracket : Bracket, c ≠ bracket.opening) :
    passes host none (fuel + 1) depth (c :: s) = (plainly (c :: s)).mapError .stop := by
  rw [passes, valueAt, plainly]
  · cases namedValue? (c :: s) with
    | some found => rfl
    | none => exact left_reading _
  · simp
  · exact fun _ same => noMark (List.cons.inj same).1
  · exact fun _ same => noBracket .square (List.cons.inj same).1
  · exact fun _ same => noBracket .curly (List.cons.inj same).1

/-- Behind a value the bracket is closed, or a comma leads to the next value. -/
def continued (host : Host ε) (bracket : Bracket) (fuel depth : Nat) (s : Text) :
    Except (Halt ε) Text :=
  match skipBlank s with
  | [] => .error (.stop (.fault .expectingComma 0))
  | c :: rest =>
    if c = bracket.closing then .ok rest
    else if c = ',' then passes host (some bracket) fuel depth (skipBlank rest)
    else .error (.stop (.fault .expectingComma (rest.length + 1)))

theorem continued_closing (closed : skipBlank s = bracket.closing :: rest) :
    continued host bracket fuel depth s = .ok rest := by
  rw [continued, closed]
  exact if_pos rfl

theorem continued_comma (comma : skipBlank s = ',' :: rest) :
    continued host bracket fuel depth s =
      passes host (some bracket) fuel depth (skipBlank rest) := by
  rw [continued, comma]
  cases bracket <;> rfl

theorem continued_other (opened : ∀ rest, skipBlank s ≠ bracket.closing :: rest)
    (noComma : ∀ rest, skipBlank s ≠ ',' :: rest) :
    continued host bracket fuel depth s =
      .error (.stop (.fault .expectingComma (skipBlank s).length)) := by
  unfold continued
  cases same : skipBlank s with
  | nil => rfl
  | cons c rest =>
    dsimp only
    rw [if_neg, if_neg]
    · rfl
    · rintro rfl
      exact noComma rest same
    · rintro rfl
      exact opened rest same

theorem passes_square (fuel depth : Nat) (s : Text) :
    passes host (some .square) (fuel + 1) depth s =
      (passes host none fuel depth s).bind (continued host .square fuel depth) := by
  simp only [passes, itemsAt]
  cases valueAt host fuel depth s with
  | error halt => rfl
  | ok pair =>
    obtain ⟨item, rest⟩ := pair
    change left _ = continued host .square fuel depth rest
    dsimp only
    split
    next closed => exact (continued_closing closed).symm
    next comma =>
      rw [continued_comma comma]
      exact left_map (f := fun pair => (item :: pair.1, pair.2)) (fun _ => rfl) _
    next opened noComma => exact (continued_other opened noComma).symm

theorem introduced_name (named : left (stringAfterQuote s) = .ok rest)
    (colon : skipBlank rest = ':' :: after) :
    introduced .curly ('"' :: s) = .ok (skipBlank after) := by
  simp only [introduced, named, colon]

theorem introduced_other (named : left (stringAfterQuote s) = .ok rest)
    (noColon : ∀ after, skipBlank rest ≠ ':' :: after) :
    introduced .curly ('"' :: s) = .error (.fault .expectingColon (skipBlank rest).length) := by
  simp only [introduced, named]

theorem introduced_unnamed (unnamed : ∀ after, s ≠ '"' :: after) :
    introduced .curly s = .error (.fault .expectingName s.length) := by
  rw [introduced]
  exact unnamed

theorem passes_curly (fuel depth : Nat) (s : Text) :
    passes host (some .curly) (fuel + 1) depth s =
      ((introduced .curly s).mapError .stop).bind fun inner =>
        (passes host none fuel depth inner).bind (continued host .curly fuel depth) := by
  simp only [passes, membersAt]
  split
  next named =>
    cases read : stringAfterQuote named with
    | error stop =>
      simp only [introduced, read]
      rfl
    | ok pair =>
      obtain ⟨name, behind⟩ := pair
      have passed : left (stringAfterQuote named) = .ok behind := congrArg left read
      dsimp only
      split
      next after colon =>
        rw [introduced_name passed colon]
        change left _ = (left (valueAt host fuel depth (skipBlank after))).bind
          (continued host .curly fuel depth)
        cases valueAt host fuel depth (skipBlank after) with
        | error halt => rfl
        | ok pair =>
          obtain ⟨value, rest⟩ := pair
          change left _ = continued host .curly fuel depth rest
          dsimp only
          split
          next closed => exact (continued_closing closed).symm
          next comma =>
            rw [continued_comma comma]
            exact left_map (f := fun pair => ((name, value) :: pair.1, pair.2)) (fun _ => rfl) _
          next opened noComma => exact (continued_other opened noComma).symm
      next noColon =>
        rw [introduced_other passed noColon]
        rfl
  next unnamed =>
    rw [introduced_unnamed unnamed]
    rfl

theorem passes_inside (bracket : Bracket) (fuel depth : Nat) (s : Text) :
    passes host (some bracket) (fuel + 1) depth s =
      ((introduced bracket s).mapError .stop).bind fun inner =>
        (passes host none fuel depth inner).bind (continued host bracket fuel depth) := by
  cases bracket with
  | square => exact passes_square fuel depth s
  | curly => exact passes_curly fuel depth s

/-! ## The ways reading can go -/

theorem introduced_cases (bracket : Bracket) (s : Text) :
    (∃ intro inner, Introduces bracket intro ∧ s = intro ++ inner ∧
        introduced bracket s = .ok inner) ∨
      ∃ kind left, introduced bracket s = .error (.fault kind left) := by
  cases bracket with
  | square => exact .inl ⟨[], s, .item, rfl, rfl⟩
  | curly =>
    by_cases named : ∃ after, s = '"' :: after
    · obtain ⟨after, rfl⟩ := named
      cases read : left (stringAfterQuote after) with
      | error stop =>
        cases stop with
        | numeral cause => exact absurd read stringRest_ne_numeral
        | fault kind left => exact .inr ⟨kind, left, by simp only [introduced, read]⟩
      | ok rest =>
        obtain ⟨name, body, rfl⟩ := body_of_stringRest read
        obtain ⟨gap, before, behind⟩ := exists_gap rest
        by_cases colon : ∃ after, skipBlank rest = ':' :: after
        · obtain ⟨after, colon⟩ := colon
          obtain ⟨lead, blank, same⟩ := exists_gap after
          refine .inl ⟨_, skipBlank after, .name body before blank, ?_, introduced_name read colon⟩
          rw [behind, colon, same]
          simp only [List.cons_append, List.append_assoc, ← same]
        · exact .inr ⟨_, _, introduced_other read fun after same => colon ⟨after, same⟩⟩
    · exact .inr ⟨_, _, introduced_unnamed fun after same => named ⟨after, same⟩⟩

theorem continued_cases (host : Host ε) (bracket : Bracket) (fuel depth : Nat) (s : Text) :
    (∃ gap rest, Blank gap ∧ s = gap ++ bracket.closing :: rest ∧
        continued host bracket fuel depth s = .ok rest) ∨
      (∃ gap lead later, Blank gap ∧ Blank lead ∧ s = gap ++ ',' :: (lead ++ later) ∧
        continued host bracket fuel depth s = passes host (some bracket) fuel depth later) ∨
      ∃ kind left, continued host bracket fuel depth s = .error (.stop (.fault kind left)) := by
  obtain ⟨gap, blank, same⟩ := exists_gap s
  by_cases closed : ∃ rest, skipBlank s = bracket.closing :: rest
  · obtain ⟨rest, closed⟩ := closed
    rw [closed] at same
    exact .inl ⟨gap, rest, blank, same, continued_closing closed⟩
  by_cases comma : ∃ rest, skipBlank s = ',' :: rest
  · obtain ⟨rest, comma⟩ := comma
    obtain ⟨lead, behind, later⟩ := exists_gap rest
    rw [comma, later] at same
    exact .inr (.inl ⟨gap, lead, skipBlank rest, blank, behind, same, continued_comma comma⟩)
  · exact .inr (.inr ⟨_, _, continued_other (fun rest same => closed ⟨rest, same⟩)
      fun rest same => comma ⟨rest, same⟩⟩)

/-- What a step of reading takes of a text, and where it goes on or why it ends. -/
inductive Pass (host : Host ε) (fuel depth : Nat) :
    Option Bracket → Text → Except (Halt ε) Text → Prop
  | faulty {part : Option Bracket} {s : Text} {kind : JsonFault} {left : Nat} :
      Pass host fuel depth part s (.error (.stop (.fault kind left)))
  | string {s : Text} {outcome : Except Stop Text} (read : left (stringAfterQuote s) = outcome) :
      Pass host fuel depth none ('"' :: s) (outcome.mapError .stop)
  | full {bracket : Bracket} {s : Text} {cause : ε} (full : host.nest depth bracket = some cause) :
      Pass host fuel depth none (bracket.opening :: s) (.error (.host cause))
  | empty {bracket : Bracket} {gap rest : Text} (room : host.nest depth bracket = none)
      (blank : Blank gap) :
      Pass host fuel depth none (bracket.opening :: (gap ++ bracket.closing :: rest)) (.ok rest)
  | filled {bracket : Bracket} {gap inner : Text} {outcome : Except (Halt ε) Text}
      (room : host.nest depth bracket = none) (blank : Blank gap)
      (inside : passes host (some bracket) fuel (depth + 1) inner = outcome) :
      Pass host fuel depth none (bracket.opening :: (gap ++ inner)) outcome
  | plain {s : Text} {outcome : Except Stop Text} (read : plainly s = outcome) :
      Pass host fuel depth none s (outcome.mapError .stop)
  | stopped {bracket : Bracket} {intro inner : Text} {halt : Halt ε}
      (introduces : Introduces bracket intro)
      (item : passes host none fuel depth inner = .error halt) :
      Pass host fuel depth (some bracket) (intro ++ inner) (.error halt)
  | last {bracket : Bracket} {intro inner gap rest : Text} (introduces : Introduces bracket intro)
      (item : passes host none fuel depth inner = .ok (gap ++ bracket.closing :: rest))
      (blank : Blank gap) : Pass host fuel depth (some bracket) (intro ++ inner) (.ok rest)
  | more {bracket : Bracket} {intro inner gap lead later : Text} {outcome : Except (Halt ε) Text}
      (introduces : Introduces bracket intro)
      (item : passes host none fuel depth inner = .ok (gap ++ ',' :: (lead ++ later)))
      (before : Blank gap) (behind : Blank lead)
      (others : passes host (some bracket) fuel depth later = outcome) :
      Pass host fuel depth (some bracket) (intro ++ inner) outcome

theorem pass_value (fuel depth : Nat) (s : Text) :
    Pass host fuel depth none s (passes host none (fuel + 1) depth s) := by
  cases s with
  | nil =>
    rw [passes_nil]
    exact .faulty
  | cons c s =>
    by_cases mark : c = '"'
    · rw [mark, passes_string]
      exact .string rfl
    by_cases opened : ∃ bracket : Bracket, c = bracket.opening
    · obtain ⟨bracket, rfl⟩ := opened
      cases room : host.nest depth bracket with
      | some cause =>
        rw [passes_full room]
        exact .full room
      | none =>
        obtain ⟨gap, blank, same⟩ := exists_gap s
        by_cases closed : ∃ rest, skipBlank s = bracket.closing :: rest
        · obtain ⟨rest, closed⟩ := closed
          rw [passes_empty room closed, same, closed]
          exact .empty room blank
        · have front : bracket.opening :: s = bracket.opening :: (gap ++ skipBlank s) :=
            congrArg (bracket.opening :: ·) same
          rw [passes_filled room fun rest same => closed ⟨rest, same⟩, front]
          exact .filled room blank rfl
    · rw [passes_plain mark fun bracket same => opened ⟨bracket, same⟩]
      exact .plain rfl

theorem pass_inside (bracket : Bracket) (fuel depth : Nat) (s : Text) :
    Pass host fuel depth (some bracket) s (passes host (some bracket) (fuel + 1) depth s) := by
  rw [passes_inside]
  rcases introduced_cases bracket s with ⟨intro, inner, introduces, rfl, step⟩ | ⟨kind, left, step⟩
  · rw [step]
    dsimp only [Except.mapError, Except.bind]
    cases item : passes host none fuel depth inner with
    | error halt => exact .stopped introduces item
    | ok behind =>
      dsimp only
      rcases continued_cases host bracket fuel depth behind with ⟨gap, rest, blank, rfl, step⟩ |
        ⟨gap, lead, later, before, behind, rfl, step⟩ | ⟨kind, left, step⟩
      · rw [step]
        exact .last introduces item blank
      · rw [step]
        exact .more introduces item before behind rfl
      · rw [step]
        exact .faulty
  · rw [step]
    exact .faulty

theorem pass (host : Host ε) (part : Option Bracket) (fuel depth : Nat) (s : Text) :
    Pass host fuel depth part s (passes host part (fuel + 1) depth s) := by
  cases part with
  | none => exact pass_value fuel depth s
  | some bracket => exact pass_inside bracket fuel depth s

/-- Without steps left reading stops. -/
theorem passes_zero (host : Host ε) (part : Option Bracket) (depth : Nat) (s : Text) :
    ∃ kind left, passes host part 0 depth s = .error (.stop (.fault kind left)) := by
  rcases part with _ | _ | _ <;> exact ⟨_, _, rfl⟩

end CHeader.JsonValue
