import CHeader.Proofs.Json.Passing

/-!
# Documents that are not read to their end

Reading ends at an integer of too many digits, or at a bracket that there is no room for, if
everything in front of it can be read, whatever stands behind it; and but for the faults of a text it
does not end otherwise.
-/
namespace CHeader.JsonValue

open Text

variable {ε : Type} {host : Host ε} {c : Char} {s inner rest : Text} {part : Option Bracket}
variable {bracket : Bracket} {fuel depth inmost : Nat} {halt : Halt ε} {cause : NumeralError}

/-! ## What is read is spelled -/

/-- What is read is a value, or the rest of what is within brackets. -/
theorem spelled_of_passes (read : passes host part fuel depth s = .ok rest) :
    ∃ t, Spelled host part depth t ∧ s = t ++ rest := by
  -- the parts of a value are read with one step less than the value
  induction fuel generalizing part depth s rest with
  | zero =>
    obtain ⟨kind, left, stopped⟩ := passes_zero host part depth s
    rw [stopped] at read
    cases read
  | succ fuel ih =>
    have step := pass host part fuel depth s
    rw [read] at step
    generalize outcome : (Except.ok rest : Except (Halt ε) Text) = result at step
    cases step with
    | faulty => cases outcome
    | full => cases outcome
    | stopped => cases outcome
    | @string _ body inside =>
      cases body with
      | error stop => cases outcome
      | ok behind =>
        cases outcome
        obtain ⟨body, isBody, rfl⟩ := body_of_stringRest inside
        exact ⟨'"' :: body, .string isBody, rfl⟩
    | @empty bracket gap _ room blank =>
      cases outcome
      exact ⟨bracket.opening :: (gap ++ [bracket.closing]), .empty room blank, by simp⟩
    | filled room blank inside =>
      obtain ⟨t, spelled, rfl⟩ := ih (inside.trans outcome.symm)
      exact ⟨_, .filled room blank spelled, by simp⟩
    | @plain _ body inside =>
      cases body with
      | error stop => cases outcome
      | ok behind =>
        cases outcome
        unfold plainly at inside
        split at inside
        next found named =>
          cases inside
          obtain ⟨word, known, rfl⟩ := known_of_namedValue? named
          exact ⟨word, .word known, rfl⟩
        next =>
          obtain ⟨t, isNumber, rfl⟩ := isNumber_of_number inside
          exact ⟨t, .number isNumber, rfl⟩
    | last introduces item blank =>
      cases outcome
      obtain ⟨value, spelled, rfl⟩ := ih item
      exact ⟨_, .last introduces spelled blank, by simp⟩
    | more introduces item before behind others =>
      obtain ⟨value, spelled, rfl⟩ := ih item
      obtain ⟨t, later, rfl⟩ := ih (others.trans outcome.symm)
      exact ⟨_, .more introduces spelled before behind later, by simp⟩

/-- Without a fault of the text reading ends only where a value is due, and is halted by what stands
there. -/
theorem due_of_passes (failed : passes host part fuel depth s = .error halt)
    (sound : ∀ kind left, halt ≠ .stop (.fault kind left)) :
    ∃ before more inmost, s = before ++ more ∧ Due host part depth inmost before ∧
      Halts host inmost more halt := by
  induction fuel generalizing part depth s with
  | zero =>
    obtain ⟨kind, left, stopped⟩ := passes_zero host part depth s
    rw [stopped] at failed
    cases failed
    exact absurd rfl (sound kind left)
  | succ fuel ih =>
    have step := pass host part fuel depth s
    rw [failed] at step
    generalize outcome : (Except.error halt : Except (Halt ε) Text) = result at step
    cases step with
    | @faulty _ _ kind left =>
      cases outcome
      exact absurd rfl (sound kind left)
    | empty => cases outcome
    | last => cases outcome
    | @string _ read inside =>
      cases read with
      | ok behind => cases outcome
      | error stop =>
        cases outcome
        cases stop with
        | fault kind left => exact absurd rfl (sound kind left)
        | numeral cause => exact absurd inside stringRest_ne_numeral
    | full full =>
      cases outcome
      exact ⟨[], _, depth, rfl, .here, .nested full⟩
    | filled room blank inside =>
      obtain ⟨before, more, inmost, rfl, due, halts⟩ := ih (inside.trans outcome.symm)
      exact ⟨_, more, inmost, by simp, .inside room blank due, halts⟩
    | @plain _ read inside =>
      cases read with
      | ok behind => cases outcome
      | error stop =>
        cases outcome
        unfold plainly at inside
        split at inside
        next => cases inside
        next =>
          cases stop with
          | fault kind left => exact absurd rfl (sound kind left)
          | numeral cause =>
            obtain ⟨count, rfl, overlong⟩ := overlong_of_number inside
            exact ⟨[], _, depth, rfl, .here, .overlong overlong⟩
    | stopped introduces item =>
      cases outcome
      obtain ⟨before, more, inmost, rfl, due, halts⟩ := ih item
      exact ⟨_, more, inmost, by simp, .first introduces due, halts⟩
    | more introduces item before behind others =>
      -- the value in front of the comma can be read
      obtain ⟨value, spelled, rfl⟩ := spelled_of_passes item
      obtain ⟨start, more, inmost, rfl, due, halts⟩ := ih (others.trans outcome.symm)
      exact ⟨_, more, inmost, by simp, .later introduces spelled before behind due, halts⟩

/-! ## Everything spelled is read -/

theorem introduced_append {intro : Text} (introduces : Introduces bracket intro)
    (starts : Starts inner) : introduced bracket (intro ++ inner) = .ok inner := by
  cases introduces with
  | item => rfl
  | @name name gap lead body before behind =>
    have named := stringAfterQuote_body body (gap ++ ':' :: (lead ++ inner))
    have colon := skipBlank_gap before (c := ':') rfl (lead ++ inner)
    simp only [List.cons_append, List.append_assoc]
    rw [introduced_name named colon, skipBlank_starts behind starts]

theorem passes_bracket {gap : Text} (room : host.nest depth bracket = none) (blank : Blank gap)
    (starts : Starts inner) :
    passes host none (fuel + 1) depth (bracket.opening :: (gap ++ inner)) =
      passes host (some bracket) fuel (depth + 1) inner := by
  have front := skipBlank_starts blank starts
  have filled : ∀ rest, skipBlank (gap ++ inner) ≠ bracket.closing :: rest :=
    fun rest same => starts.ne_closing bracket rest (front.symm.trans same)
  rw [passes_filled room filled, front]

theorem passes_bare {minus tail : Text} (marked : minus = [] ∨ minus = ['-'])
    (kind : c ∈ letters ∨ c.isDigit = true) :
    passes host none (fuel + 1) depth (minus ++ c :: tail) =
      (plainly (minus ++ c :: tail)).mapError .stop := by
  rcases marked with rfl | rfl
  · refine passes_plain ?_ fun bracket => ?_
    · rintro rfl
      revert kind
      decide
    · rintro rfl
      revert kind
      cases bracket <;> decide
  · exact passes_plain (by decide) fun bracket => by cases bracket <;> decide

theorem passes_word {word : Text} {value : JsonValue} (known : (word, value) ∈ namedValues)
    (rest : Text) : passes host none (fuel + 1) depth (word ++ rest) = .ok rest := by
  have named := namedValue?_append known rest
  obtain ⟨minus, c, tail, marked, letter, rfl⟩ := exists_letter known
  rw [List.append_assoc, List.cons_append] at named ⊢
  rw [passes_bare marked (.inl letter), plainly, named]
  rfl

theorem passes_number {minus whole : Text} (negative : minus = [] ∨ minus = ['-'])
    (digits : IsWhole whole) (rest : Text) :
    passes host none (fuel + 1) depth (minus ++ (whole ++ rest)) =
      (left (number (minus ++ (whole ++ rest)))).mapError .stop := by
  have unnamed := namedValue?_number negative digits rest
  obtain ⟨c, tail, same, digit⟩ := digits.head_isDigit rest
  rw [same] at unnamed ⊢
  rw [passes_bare negative (.inr digit), plainly, unnamed]

/-- What ends a value within brackets does not belong to a number. -/
theorem unextended_gap {gap : Text} (blank : Blank gap)
    (plain : c.isDigit = false ∧ c ∉ ['.', 'e', 'E']) : Unextended (gap ++ c :: rest) := by
  refine unextended_of_head fun d first => ?_
  cases gap with
  | nil =>
    cases Option.some.inj (Option.mem_def.mp first)
    exact plain
  | cons b gap =>
    cases Option.some.inj (Option.mem_def.mp first)
    have isBlank := blank d List.mem_cons_self
    simp only [JsonValue.isBlank, Bool.or_eq_true, beq_iff_eq] at isBlank
    rcases isBlank with ((rfl | rfl) | rfl) | rfl <;> decide

/-- A value is read whatever follows it that does not belong to it. -/
def Passed (host : Host ε) (fuel depth : Nat) (value : Text) : Prop :=
  ∀ rest, Unextended rest → passes host none fuel depth (value ++ rest) = .ok rest

theorem passes_item {intro value : Text} (introduces : Introduces bracket intro)
    (item : Spelled host none depth value) (passed : Passed host fuel depth value)
    (ends : Unextended rest) :
    passes host (some bracket) (fuel + 1) depth (intro ++ (value ++ rest)) =
      continued host bracket fuel depth rest := by
  rw [passes_inside, introduced_append introduces (item.starts.append rest)]
  simp only [Except.mapError, Except.bind, passed rest ends]

theorem passes_closing {intro value gap : Text} (introduces : Introduces bracket intro)
    (item : Spelled host none depth value) (passed : Passed host fuel depth value)
    (blank : Blank gap) (rest : Text) :
    passes host (some bracket) (fuel + 1) depth
      (intro ++ (value ++ (gap ++ bracket.closing :: rest))) = .ok rest := by
  rw [passes_item introduces item passed (unextended_gap blank (by cases bracket <;> decide))]
  exact continued_closing (skipBlank_gap blank (by cases bracket <;> rfl) rest)

theorem passes_comma {intro value gap lead : Text} (introduces : Introduces bracket intro)
    (item : Spelled host none depth value) (passed : Passed host fuel depth value)
    (before : Blank gap) (behind : Blank lead) (starts : Starts s) :
    passes host (some bracket) (fuel + 1) depth
        (intro ++ (value ++ (gap ++ ',' :: (lead ++ s)))) =
      passes host (some bracket) fuel depth s := by
  rw [passes_item introduces item passed (unextended_gap before (by decide)),
    continued_comma (skipBlank_gap before rfl _), skipBlank_starts behind starts]

/-- Everything spelled is read, in steps that its length bounds. -/
theorem passes_of_spelled (spelled : Spelled host part depth s) (enough : 2 * s.length < fuel)
    (ends : part = none → Unextended rest) : passes host part fuel depth (s ++ rest) = .ok rest := by
  -- brackets show where they end, so that what follows matters to values only
  induction spelled generalizing fuel rest with
  | word known =>
    obtain ⟨fuel, rfl⟩ : ∃ less, fuel = less + 1 := ⟨fuel - 1, by omega⟩
    exact passes_word known rest
  | string body =>
    obtain ⟨fuel, rfl⟩ : ∃ less, fuel = less + 1 := ⟨fuel - 1, by omega⟩
    rw [List.cons_append, passes_string, stringAfterQuote_body body rest]
    rfl
  | number isNumber =>
    obtain ⟨fuel, rfl⟩ : ∃ less, fuel = less + 1 := ⟨fuel - 1, by omega⟩
    have read := number_append isNumber (ends rfl)
    obtain ⟨negative, digits, -⟩ := isNumber
    rw [List.append_assoc, List.append_assoc] at read ⊢
    rw [passes_number negative digits, read]
    rfl
  | @empty depth bracket gap room blank =>
    obtain ⟨fuel, rfl⟩ : ∃ less, fuel = less + 1 := ⟨fuel - 1, by omega⟩
    rw [List.cons_append, List.append_assoc]
    exact passes_empty room (skipBlank_gap blank (by cases bracket <;> rfl) rest)
  | filled room blank inside ih =>
    simp only [List.length_cons, List.length_append] at enough
    obtain ⟨fuel, rfl⟩ : ∃ less, fuel = less + 1 := ⟨fuel - 1, by omega⟩
    rw [List.cons_append, List.append_assoc, passes_bracket room blank (inside.starts.append rest)]
    exact ih (by omega) (by rintro ⟨⟩)
  | last introduces item blank ih =>
    simp only [List.length_cons, List.length_append] at enough
    obtain ⟨fuel, rfl⟩ : ∃ less, fuel = less + 1 := ⟨fuel - 1, by omega⟩
    simp only [List.append_assoc, List.singleton_append]
    exact passes_closing introduces item (fun _ ends => ih (by omega) fun _ => ends) blank rest
  | more introduces item before behind others ih following =>
    simp only [List.length_cons, List.length_append] at enough
    obtain ⟨fuel, rfl⟩ : ∃ less, fuel = less + 1 := ⟨fuel - 1, by omega⟩
    simp only [List.append_assoc, List.cons_append]
    rw [passes_comma introduces item (fun _ ends => ih (by omega) fun _ => ends) before behind
      (others.starts.append rest)]
    exact following (by omega) (by rintro ⟨⟩)

/-- Reading comes to every place where a value is due. -/
theorem passes_of_due {before more : Text} (due : Due host part depth inmost before)
    (halts : Halts host inmost more halt)
    (enough : 2 * before.length + part.toList.length < fuel) :
    passes host part fuel depth (before ++ more) = .error halt := by
  -- an item may be due with nothing read in front of it, and still takes a step of its own
  induction due generalizing fuel with
  | here =>
    obtain ⟨fuel, rfl⟩ : ∃ less, fuel = less + 1 := ⟨fuel - 1, by omega⟩
    cases halts with
    | overlong overlong =>
      have refused := number_overlong overlong
      obtain ⟨negative, digits, -⟩ := overlong
      rw [List.nil_append, passes_number negative digits, refused]
      rfl
    | nested full => exact passes_full full
  | inside room blank due ih =>
    simp only [List.length_cons, List.length_append, Option.toList_none, List.length_nil] at enough
    obtain ⟨fuel, rfl⟩ : ∃ less, fuel = less + 1 := ⟨fuel - 1, by omega⟩
    rw [List.cons_append, List.append_assoc, passes_bracket room blank (due.starts halts.starts)]
    refine ih halts ?_
    simp only [Option.toList_some, List.length_singleton]
    omega
  | first introduces due ih =>
    simp only [List.length_append, Option.toList_some, List.length_singleton] at enough
    obtain ⟨fuel, rfl⟩ : ∃ less, fuel = less + 1 := ⟨fuel - 1, by omega⟩
    have refused := @ih fuel halts (by
      simp only [Option.toList_none, List.length_nil]
      omega)
    rw [List.append_assoc, passes_inside, introduced_append introduces (due.starts halts.starts)]
    simp only [Except.mapError, Except.bind, refused]
  | later introduces item before behind due ih =>
    simp only [List.length_append, List.length_cons, Option.toList_some, List.length_nil] at enough
    obtain ⟨fuel, rfl⟩ : ∃ less, fuel = less + 1 := ⟨fuel - 1, by omega⟩
    simp only [List.append_assoc, List.cons_append]
    rw [passes_comma introduces item
      (fun _ ends => passes_of_spelled item (by omega) fun _ => ends) before behind
      (due.starts halts.starts)]
    refine ih halts ?_
    simp only [Option.toList_some, List.length_singleton]
    omega

/-! ## Whole documents -/

/-- The document can be read up to a place where a value is due and where reading is halted. -/
inductive Halted (host : Host ε) : Text → Halt ε → Prop
  | intro {lead before more : Text} {inmost : Nat} {halt : Halt ε} (blank : Blank lead)
      (due : Due host none 0 inmost before) (halts : Halts host inmost more halt) :
      Halted host (lead ++ (before ++ more)) halt

/-- No document that starts with a blank or with a value starts with the mark of the byte order. -/
theorem unmarked {lead : Text} (blank : Blank lead) (starts : Starts s) :
    (lead ++ s).head? ≠ some '\uFEFF' := by
  intro marked
  obtain ⟨tail, same⟩ := List.head?_eq_some_iff.mp marked
  cases lead with
  | nil =>
    obtain ⟨c, _, first, kind⟩ := starts
    obtain ⟨rfl, -⟩ := List.cons.inj (first.symm.trans same)
    revert kind
    decide
  | cons c lead =>
    obtain ⟨rfl, -⟩ := List.cons.inj same
    exact absurd (blank _ List.mem_cons_self) (by decide)

/-- Reading the whole document is halted where reading its value is. -/
theorem halted_iff_passes (sound : ∀ kind left, halt ≠ .stop (.fault kind left)) :
    Halted host s halt ↔ s.head? ≠ some '\uFEFF' ∧
      passes host none (2 * s.length + 2) 0 (skipBlank s) = .error halt := by
  constructor
  · rintro @⟨lead, before, more, inmost, _, blank, due, halts⟩
    have starts := due.starts halts.starts
    refine ⟨unmarked blank starts, ?_⟩
    rw [skipBlank_starts blank starts]
    refine passes_of_due due halts ?_
    simp only [List.length_append, Option.toList_none, List.length_nil]
    omega
  · rintro ⟨-, failed⟩
    obtain ⟨before, more, inmost, same, due, halts⟩ := due_of_passes failed sound
    obtain ⟨lead, blank, front⟩ := exists_gap s
    rw [front, same]
    exact .intro blank due halts

/-- A document is not read to its end for the system if reading is halted by it. -/
theorem parse_eq_error_iff {cause : ε} :
    parse host s = .error cause ↔ Halted host s (.host cause) := by
  rw [halted_iff_passes (by rintro _ _ ⟨⟩)]
  unfold parse
  dsimp only
  by_cases marked : s.head? = some '\uFEFF'
  · simp [marked]
  rw [if_neg marked, passes]
  rcases valueAt host (2 * s.length + 2) 0 (skipBlank s) with (stop | _) | ⟨value, rest⟩
  · cases stop <;> simp [left, Except.map]
  · simp [marked, left, Except.map]
  · refine iff_of_false (fun refused => ?_) fun refused => by cases refused.2
    dsimp only at refused
    split at refused <;> cases refused

end CHeader.JsonValue
