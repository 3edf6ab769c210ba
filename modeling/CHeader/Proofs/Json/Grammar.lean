import CHeader.Proofs.Json.Number
import CHeader.Proofs.Json.RoundTrip

/-!
# The texts of documents

Which texts are values is said without reading them, and so is where in a text that is not finished
the next value is due. A value shows by its first character that it starts: blanks in front of it are
skipped up to there. The system has a say as well, since it may have no room for one more bracket
where a number of them are open.
-/
namespace CHeader.JsonValue

open Text

/-- Blank space between the parts of a document. -/
def Blank (s : Text) : Prop := ∀ c ∈ s, isBlank c = true

/-- What stands in front of each value within brackets: nothing, or the name of a member. -/
inductive Introduces : Bracket → Text → Prop
  | item : Introduces .square []
  | name {name gap lead : Text} (body : Body name) (before : Blank gap) (behind : Blank lead) :
      Introduces .curly ('"' :: (name ++ (gap ++ ':' :: lead)))

variable {ε : Type}

/-- The texts of the values that can be read where a number of brackets are open, and of what stands
between an opening bracket and the end of its closing one. -/
inductive Spelled (host : Host ε) : Option Bracket → Nat → Text → Prop
  | word {depth : Nat} {word : Text} {value : JsonValue} (known : (word, value) ∈ namedValues) :
      Spelled host none depth word
  | string {depth : Nat} {s : Text} (body : Body s) : Spelled host none depth ('"' :: s)
  | number {depth : Nat} {s : Text} (isNumber : IsNumber s) : Spelled host none depth s
  | empty {depth : Nat} {bracket : Bracket} {gap : Text} (room : host.nest depth bracket = none)
      (blank : Blank gap) : Spelled host none depth (bracket.opening :: (gap ++ [bracket.closing]))
  | filled {depth : Nat} {bracket : Bracket} {gap inner : Text}
      (room : host.nest depth bracket = none) (blank : Blank gap)
      (inside : Spelled host (some bracket) (depth + 1) inner) :
      Spelled host none depth (bracket.opening :: (gap ++ inner))
  | last {depth : Nat} {bracket : Bracket} {intro value gap : Text}
      (introduces : Introduces bracket intro) (item : Spelled host none depth value)
      (blank : Blank gap) :
      Spelled host (some bracket) depth (intro ++ (value ++ (gap ++ [bracket.closing])))
  | more {depth : Nat} {bracket : Bracket} {intro value gap lead later : Text}
      (introduces : Introduces bracket intro) (item : Spelled host none depth value)
      (before : Blank gap) (behind : Blank lead) (others : Spelled host (some bracket) depth later) :
      Spelled host (some bracket) depth (intro ++ (value ++ (gap ++ ',' :: (lead ++ later))))

/-- The beginnings of such texts that end where a value is due, and how many brackets are open where
they start and where they end. -/
inductive Due (host : Host ε) : Option Bracket → Nat → Nat → Text → Prop
  | here {depth : Nat} : Due host none depth depth []
  | inside {depth inmost : Nat} {bracket : Bracket} {gap inner : Text}
      (room : host.nest depth bracket = none) (blank : Blank gap)
      (due : Due host (some bracket) (depth + 1) inmost inner) :
      Due host none depth inmost (bracket.opening :: (gap ++ inner))
  | first {depth inmost : Nat} {bracket : Bracket} {intro inner : Text}
      (introduces : Introduces bracket intro) (due : Due host none depth inmost inner) :
      Due host (some bracket) depth inmost (intro ++ inner)
  | later {depth inmost : Nat} {bracket : Bracket} {intro value gap lead inner : Text}
      (introduces : Introduces bracket intro) (item : Spelled host none depth value)
      (before : Blank gap) (behind : Blank lead)
      (due : Due host (some bracket) depth inmost inner) :
      Due host (some bracket) depth inmost (intro ++ (value ++ (gap ++ ',' :: (lead ++ inner))))

/-- What ends reading, where a value is due, that is not a fault of the text: an integer of too many
digits, or a bracket that there is no room for. -/
inductive Halts (host : Host ε) (depth : Nat) : Text → Halt ε → Prop
  | overlong {count : Nat} {s : Text} (overlong : Overlong count s) :
      Halts host depth s (.stop (.numeral (.tooManyDigits count)))
  | nested {bracket : Bracket} {s : Text} {cause : ε} (full : host.nest depth bracket = some cause) :
      Halts host depth (bracket.opening :: s) (.host cause)

variable {host : Host ε} {c : Char} {s rest : Text} {part : Option Bracket} {bracket : Bracket}
variable {depth inmost count : Nat} {halt : Halt ε}

/-! ## Blanks and first characters -/

theorem exists_gap (s : Text) : ∃ gap, Blank gap ∧ s = gap ++ skipBlank s :=
  ⟨s.takeWhile isBlank, fun _ member => List.mem_takeWhile_imp member,
    (List.takeWhile_append_dropWhile).symm⟩

/-- The letters that words start with, behind a minus sign or not. -/
def letters : Text := ['n', 't', 'f', 'N', 'I']

theorem exists_letter {word : Text} {value : JsonValue} (known : (word, value) ∈ namedValues) :
    ∃ minus c tail, (minus = [] ∨ minus = ['-']) ∧ c ∈ letters ∧ word = minus ++ c :: tail := by
  simp only [namedValues, List.mem_cons, Prod.mk.injEq, List.not_mem_nil, or_false] at known
  rcases known with ⟨rfl, -⟩ | ⟨rfl, -⟩ | ⟨rfl, -⟩ | ⟨rfl, -⟩ | ⟨rfl, -⟩ | ⟨rfl, -⟩
  · exact ⟨[], 'n', _, .inl rfl, by decide, rfl⟩
  · exact ⟨[], 't', _, .inl rfl, by decide, rfl⟩
  · exact ⟨[], 'f', _, .inl rfl, by decide, rfl⟩
  · exact ⟨[], 'N', _, .inl rfl, by decide, rfl⟩
  · exact ⟨[], 'I', _, .inl rfl, by decide, rfl⟩
  · exact ⟨['-'], 'I', _, .inr rfl, by decide, rfl⟩

/-- The characters besides digits that values start with. -/
def starters : Text := '"' :: '[' :: '{' :: '-' :: letters

def Starts (s : Text) : Prop := ∃ c tail, s = c :: tail ∧ (c ∈ starters ∨ c.isDigit = true)

theorem Starts.append (starts : Starts s) (more : Text) : Starts (s ++ more) := by
  obtain ⟨c, tail, rfl, kind⟩ := starts
  exact ⟨c, tail ++ more, rfl, kind⟩

theorem Starts.solid (starts : Starts s) : ∃ c tail, s = c :: tail ∧ isBlank c = false := by
  obtain ⟨c, tail, rfl, starter | digit⟩ := starts
  · have solid : ∀ c ∈ starters, isBlank c = false := by decide
    exact ⟨c, tail, rfl, solid c starter⟩
  · refine ⟨c, tail, rfl, Bool.eq_false_iff.mpr fun blank => ?_⟩
    simp only [isBlank, Bool.or_eq_true, beq_iff_eq] at blank
    rcases blank with ((rfl | rfl) | rfl) | rfl <;> cases digit

theorem Starts.ne_closing (starts : Starts s) (bracket : Bracket) (rest : Text) :
    s ≠ bracket.closing :: rest := by
  obtain ⟨c, tail, rfl, kind⟩ := starts
  rintro same
  obtain ⟨rfl, -⟩ := List.cons.inj same
  cases bracket <;> revert kind <;> decide

theorem skipBlank_gap {gap : Text} (blank : Blank gap) (solid : isBlank c = false) (rest : Text) :
    skipBlank (gap ++ c :: rest) = c :: rest := by
  rw [skipBlank, List.dropWhile_append_of_pos blank]
  exact skipBlank_cons solid rest

theorem skipBlank_starts {gap : Text} (blank : Blank gap) (starts : Starts s) :
    skipBlank (gap ++ s) = s := by
  obtain ⟨c, tail, rfl, solid⟩ := starts.solid
  exact skipBlank_gap blank solid tail

theorem IsWhole.starts {minus whole : Text} (negative : minus = [] ∨ minus = ['-'])
    (digits : IsWhole whole) (rest : Text) : Starts (minus ++ (whole ++ rest)) := by
  rcases negative with rfl | rfl
  · obtain ⟨c, others, same, digit⟩ := digits.head_isDigit rest
    exact ⟨c, others, same, .inr digit⟩
  · exact ⟨'-', whole ++ rest, rfl, .inl (by decide)⟩

theorem Introduces.starts {intro : Text} (introduces : Introduces bracket intro)
    (starts : Starts s) : Starts (intro ++ s) := by
  cases introduces with
  | item => exact starts
  | name => exact ⟨'"', _, rfl, .inl (by decide)⟩

theorem starts_opening (bracket : Bracket) (s : Text) : Starts (bracket.opening :: s) := by
  cases bracket <;> exact ⟨_, s, rfl, .inl (by decide)⟩

theorem Spelled.starts (spelled : Spelled host part depth s) : Starts s := by
  induction spelled with
  | word known =>
    obtain ⟨minus, c, tail, rfl | rfl, letter, rfl⟩ := exists_letter known
    · exact ⟨c, tail, rfl, .inl (by simp [starters, letter])⟩
    · exact ⟨'-', c :: tail, rfl, .inl (by decide)⟩
  | string => exact ⟨'"', _, rfl, .inl (by decide)⟩
  | number isNumber =>
    obtain ⟨negative, digits⟩ := isNumber
    exact digits.starts negative _
  | empty => exact starts_opening _ _
  | filled => exact starts_opening _ _
  | last introduces _ _ ih => exact introduces.starts (ih.append _)
  | more introduces _ _ _ _ ih => exact introduces.starts (ih.append _)

theorem Overlong.starts (overlong : Overlong count s) : Starts s := by
  obtain ⟨negative, digits, -⟩ := overlong
  exact digits.starts negative _

theorem Halts.starts (halts : Halts host depth s halt) : Starts s := by
  cases halts with
  | overlong overlong => exact overlong.starts
  | nested => exact starts_opening _ _

theorem Due.starts {before : Text} (due : Due host part depth inmost before) (starts : Starts s) :
    Starts (before ++ s) := by
  induction due with
  | here => exact starts
  | inside => exact starts_opening _ _
  | first introduces _ ih =>
    rw [List.append_assoc]
    exact introduces.starts ih
  | later introduces item =>
    rw [List.append_assoc, List.append_assoc]
    exact introduces.starts (item.starts.append _)

end CHeader.JsonValue
