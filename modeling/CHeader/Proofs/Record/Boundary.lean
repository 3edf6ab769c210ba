import CHeader.Proofs.Record

/-!
# Where declarations of records end

A text is closed if it ends in a semicolon and a closing brace follows each opening one. A definition
that starts in a closed text ends there: a body is over at the next brace, and outside of a body the
first semicolon is the end. So no step of the search looks past the text, and the records of a closed
text and of what follows it are found apart from each other, whether or not the closed text holds
nested records or parts of one.
-/
namespace CHeader.Record

open Text

/-- A text that ends in a semicolon, with a closing brace behind each opening brace. -/
structure Closed (s : Text) : Prop where
  ends : s.getLast? = some ';'
  closes : ∀ before after, s = before ++ '{' :: after → '}' ∈ after

/-- It is the last brace that decides. -/
theorem closed_of_lastBrace {s : Text} (ends : s.getLast? = some ';')
    (lastBrace : ∀ brace, (s.filter fun c => c == '{' || c == '}').getLast? = some brace →
      brace = '}') : Closed s := by
  constructor
  · exact ends
  · rintro before after rfl
    by_contra absent
    let isBrace : Char → Bool := fun c => c == '{' || c == '}'
    have filled : '{' :: after.filter isBrace ≠ [] := List.cons_ne_nil _ _
    -- without a closing brace behind it, the last brace is an opening one
    have opening : ∀ brace ∈ '{' :: after.filter isBrace, brace = '{' := by
      intro brace member
      rcases List.mem_cons.mp member with here | later
      · exact here
      · obtain ⟨inside, sign⟩ := List.mem_filter.mp later
        simp only [isBrace, Bool.or_eq_true, beq_iff_eq] at sign
        exact sign.resolve_right fun closing => absent (closing ▸ inside)
    have last : ((before ++ '{' :: after).filter isBrace).getLast? =
        some (('{' :: after.filter isBrace).getLast filled) := by
      rw [List.filter_append, List.filter_cons_of_pos (by rfl), List.getLast?_append_cons,
        List.getLast?_eq_getLast_of_ne_nil filled]
    have closing := lastBrace _ last
    rw [opening _ (List.getLast_mem filled)] at closing
    cases closing

namespace Closed

variable {s : Text}

theorem mem (closed : Closed s) : ';' ∈ s := List.mem_of_getLast? closed.ends

theorem ne_nil (closed : Closed s) : s ≠ [] := List.ne_nil_of_mem closed.mem

/-- What is left of a closed text is closed. -/
theorem suffix {front rest : Text} (closed : Closed (front ++ rest)) (filled : rest ≠ []) :
    Closed rest := by
  constructor
  · rw [← closed.ends, List.getLast?_append_of_ne_nil front filled]
  · rintro before after rfl
    exact closed.closes (front ++ before) after (List.append_assoc ..).symm

theorem behind {c : Char} (closed : Closed (c :: s)) (filled : s ≠ []) : Closed s := by
  have whole : Closed ([c] ++ s) := closed
  exact whole.suffix filled

theorem tail {c : Char} (closed : Closed (c :: s)) (other : c ≠ ';') : Closed s := by
  apply closed.behind
  rintro rfl
  exact other (Option.some.inj closed.ends)

/-! ## Steps stay in a closed text -/

theorem past_while {p : Char → Bool} (closed : Closed s) {c : Char} (member : c ∈ s)
    (stops : p c = false) : Closed (s.dropWhile p) := by
  have whole : s.takeWhile p ++ s.dropWhile p = s := List.takeWhile_append_dropWhile
  exact suffix (whole.symm ▸ closed) (dropWhile_ne_nil member stops)

theorem past_trimStart (closed : Closed s) : Closed (trimStart s) :=
  closed.past_while closed.mem (by decide)

theorem past_dropLeading? {leading rest : Text} (closed : Closed s) (unended : ';' ∉ leading)
    (leads : dropLeading? leading s = some rest) : Closed rest := by
  obtain rfl := dropLeading?_eq_some.mp leads
  apply closed.suffix
  rintro rfl
  rw [List.append_nil] at closed
  exact unended closed.mem

theorem past_word? {word rest : Text} (closed : Closed s) (found : word? s = some (word, rest)) :
    Closed rest := by
  rw [word?, Option.ite_none_left_eq_some] at found
  cases found.2
  exact closed.past_while closed.mem (by decide)

theorem past_blank? {rest : Text} (closed : Closed s) (found : blank? s = some rest) :
    Closed rest := by
  cases s with
  | nil => cases found
  | cons c s =>
    rw [blank?, Option.ite_none_right_eq_some] at found
    obtain ⟨space, found⟩ := found
    cases found
    apply past_trimStart
    apply closed.tail
    rintro rfl
    revert space
    decide

theorem past_kind? {kind : RecordKind} {rest : Text} (closed : Closed s)
    (found : kind? s = some (kind, rest)) : Closed rest := by
  rw [kind?] at found
  split at found
  next leads =>
    cases found
    exact closed.past_dropLeading? (by decide) leads
  next =>
    obtain ⟨after, leads, pair⟩ := Option.map_eq_some_iff.mp found
    cases pair
    exact closed.past_dropLeading? (by decide) leads

/-- A body that is opened in a closed text ends in it. -/
theorem mem_body {opened : Text} (closed : Closed s) (opens : dropLeading? ['{'] s = some opened) :
    '}' ∈ opened := by
  have whole : s = ['{'] ++ opened := dropLeading?_eq_some.mp opens
  exact closed.closes [] opened whole

theorem past_body? {body rest : Text} (closed : Closed s) (found : body? s = some (body, rest)) :
    Closed rest := by
  simp only [body?, Option.bind_eq_bind, Option.bind_eq_some_iff] at found
  obtain ⟨opened, opens, after, closes, pair⟩ := found
  cases pair
  have inside := closed.past_dropLeading? (by decide) opens
  have ending := inside.past_while (p := isBodyText) (closed.mem_body opens) rfl
  exact ending.past_dropLeading? (by decide) closes

end Closed

/-! ## Steps do not look past a closed text -/

/-- What a step finds, with more text behind what it leaves. -/
def carry {α : Type} (t : Text) (found : α × Text) : α × Text := (found.1, found.2 ++ t)

/-- A step and what is done with its result, both with more text behind what they leave. -/
theorem bind_map_extended {α β : Type} {found : Option α} {extend : α → α} {next : α → Option β}
    {extendNext : β → β}
    (later : ∀ result, found = some result → next (extend result) = (next result).map extendNext) :
    (found.map extend >>= next) = (found >>= next).map extendNext := by
  cases found with
  | none => rfl
  | some result => exact later result rfl

namespace Closed

variable {s : Text} (closed : Closed s) (t : Text)

include closed

/-- A mark with no semicolon before its end does not begin in a closed text and end behind it. -/
theorem dropLeading?_append {leading : Text} (unended : ';' ∉ leading.dropLast) :
    dropLeading? leading (s ++ t) = (dropLeading? leading s).map (· ++ t) := by
  cases here : dropLeading? leading s with
  | some rest =>
    obtain rfl := dropLeading?_eq_some.mp here
    rw [Option.map_some, List.append_assoc]
    exact dropLeading?_eq_some.mpr rfl
  | none =>
    rw [Option.map_none, Option.eq_none_iff_forall_ne_some]
    intro rest leads
    have whole := dropLeading?_eq_some.mp leads
    rcases List.append_eq_append_iff.mp whole with ⟨more, longer, -⟩ | ⟨more, shorter, -⟩
    · cases more with
      | nil =>
        have full : s = leading ++ [] := by simp [longer]
        rw [dropLeading?_eq_some.mpr full] at here
        cases here
      | cons c more =>
        -- the text is a beginning of the mark, and its semicolon is in the way
        apply unended
        rw [longer, List.dropLast_append_of_ne_nil (List.cons_ne_nil c more)]
        exact List.mem_append_left _ closed.mem
    · rw [dropLeading?_eq_some.mpr shorter] at here
      cases here

theorem trimStart_append : trimStart (s ++ t) = trimStart s ++ t :=
  (while_append closed.mem (by decide) t).2

theorem dropWord_append : (s ++ t).dropWhile isWord = s.dropWhile isWord ++ t :=
  (while_append closed.mem (by decide) t).2

theorem word?_append : word? (s ++ t) = (word? s).map (carry t) := by
  obtain ⟨same, rest⟩ := while_append (p := isWord) closed.mem (by decide) t
  rw [word?, word?, same, rest]
  split <;> rfl

theorem blank?_append : blank? (s ++ t) = (blank? s).map (· ++ t) := by
  cases s with
  | nil => exact absurd rfl closed.ne_nil
  | cons c s =>
    rw [List.cons_append, blank?, blank?]
    split
    next space =>
      have other : c ≠ ';' := by
        rintro rfl
        revert space
        decide
      exact congrArg some ((closed.tail other).trimStart_append t)
    next => rfl

theorem kind?_append : kind? (s ++ t) = (kind? s).map (carry t) := by
  rw [kind?, kind?, closed.dropLeading?_append t (by decide),
    closed.dropLeading?_append t (by decide)]
  cases dropLeading? "struct".toList s with
  | some rest => rfl
  | none =>
    cases dropLeading? "union".toList s with
    | some rest => rfl
    | none => rfl

theorem body?_append : body? (s ++ t) = (body? s).map (carry t) := by
  rw [body?, closed.dropLeading?_append t (by decide)]
  apply bind_map_extended
  intro opened opens
  have closing := closed.mem_body opens
  -- the body stops at a brace, and there is one in the text
  obtain ⟨same, rest⟩ := while_append (p := isBodyText) closing rfl t
  have ending := (closed.past_dropLeading? (by decide) opens).past_while (p := isBodyText) closing rfl
  rw [same, rest, ending.dropLeading?_append t (by decide)]
  exact bind_map_extended fun after _ => rfl

theorem typedef?_append : typedef? (s ++ t) = (typedef? s).map (carry t) := by
  -- no step looks past the text, and what it leaves is closed for the next one
  rw [typedef?, closed.dropLeading?_append t (by decide)]
  apply bind_map_extended
  intro s₁ typedefs
  have closed₁ := closed.past_dropLeading? (by decide) typedefs
  rw [closed₁.blank?_append t]
  apply bind_map_extended
  intro s₂ blanks
  have closed₂ := closed₁.past_blank? blanks
  rw [closed₂.kind?_append t]
  apply bind_map_extended
  rintro ⟨kind, s₃⟩ kinds
  have closed₃ := closed₂.past_kind? kinds
  have trimmed := closed₃.past_trimStart
  -- a tag is passed if there is one
  have afterTag := trimmed.past_while (p := isWord) trimmed.mem (by decide)
  dsimp only [carry]
  rw [closed₃.trimStart_append t, trimmed.dropWord_append t, afterTag.trimStart_append t,
    afterTag.past_trimStart.body?_append t]
  apply bind_map_extended
  rintro ⟨body, s₄⟩ bodies
  have closed₄ := afterTag.past_trimStart.past_body? bodies
  dsimp only [carry]
  rw [closed₄.trimStart_append t, closed₄.past_trimStart.word?_append t]
  apply bind_map_extended
  rintro ⟨name, s₅⟩ names
  have closed₅ := closed₄.past_trimStart.past_word? names
  dsimp only [carry]
  rw [closed₅.trimStart_append t, closed₅.past_trimStart.dropLeading?_append t (by decide)]
  exact bind_map_extended fun s₆ _ => rfl

theorem tagged?_append : tagged? (s ++ t) = (tagged? s).map (carry t) := by
  rw [tagged?, closed.kind?_append t]
  apply bind_map_extended
  rintro ⟨kind, s₁⟩ kinds
  have closed₁ := closed.past_kind? kinds
  dsimp only [carry]
  rw [closed₁.blank?_append t]
  apply bind_map_extended
  intro s₂ blanks
  have closed₂ := closed₁.past_blank? blanks
  rw [closed₂.word?_append t]
  apply bind_map_extended
  rintro ⟨tag, s₃⟩ tags
  have closed₃ := closed₂.past_word? tags
  dsimp only [carry]
  rw [closed₃.trimStart_append t, closed₃.past_trimStart.body?_append t]
  apply bind_map_extended
  rintro ⟨body, s₄⟩ bodies
  have closed₄ := closed₃.past_trimStart.past_body? bodies
  dsimp only [carry]
  rw [closed₄.trimStart_append t, closed₄.past_trimStart.dropLeading?_append t (by decide)]
  exact bind_map_extended fun s₅ _ => rfl

/-- A definition that starts in a closed text ends in it. -/
theorem definitionAt?_append (afterWord : Bool) :
    definitionAt? afterWord (s ++ t) = (definitionAt? afterWord s).map (carry t) := by
  have whole : definition? (s ++ t) = (definition? s).map (carry t) := by
    rw [definition?, definition?, closed.typedef?_append t, closed.tagged?_append t]
    cases typedef? s with
    | some found => rfl
    | none => rfl
  rw [definitionAt?, definitionAt?, whole]
  split <;> rfl

end Closed

/-! ## Behind a definition -/

namespace Closed

variable {s rest : Text} {record : Record} (closed : Closed s)

include closed

/-- The semicolon that ends a definition may be the last one. -/
theorem past_semicolon (ends : dropLeading? [';'] (trimStart s) = some rest) :
    rest = [] ∨ Closed rest := by
  have trimmed := closed.past_trimStart
  rw [dropLeading?_eq_some.mp ends] at trimmed
  by_cases filled : rest = []
  · exact Or.inl filled
  · exact Or.inr (trimmed.suffix filled)

theorem past_typedef? (found : typedef? s = some (record, rest)) : rest = [] ∨ Closed rest := by
  simp only [typedef?, Option.bind_eq_bind, Option.bind_eq_some_iff] at found
  obtain ⟨s₁, typedefs, s₂, blanks, ⟨kind, s₃⟩, kinds, ⟨body, s₄⟩, bodies, ⟨name, s₅⟩, names,
    s₆, ends, pair⟩ := found
  cases pair
  have trimmed := (((closed.past_dropLeading? (by decide) typedefs).past_blank? blanks).past_kind?
    kinds).past_trimStart
  have afterTag := trimmed.past_while (p := isWord) trimmed.mem (by decide)
  have closed₄ := afterTag.past_trimStart.past_body? bodies
  exact (closed₄.past_trimStart.past_word? names).past_semicolon ends

theorem past_tagged? (found : tagged? s = some (record, rest)) : rest = [] ∨ Closed rest := by
  simp only [tagged?, Option.bind_eq_bind, Option.bind_eq_some_iff] at found
  obtain ⟨⟨kind, s₁⟩, kinds, s₂, blanks, ⟨tag, s₃⟩, tags, ⟨body, s₄⟩, bodies, s₅, ends, pair⟩ := found
  cases pair
  have closed₃ := ((closed.past_kind? kinds).past_blank? blanks).past_word? tags
  exact (closed₃.past_trimStart.past_body? bodies).past_semicolon ends

/-- What a definition leaves of a closed text is closed again, unless nothing is left. -/
theorem past_definitionAt? {afterWord : Bool}
    (found : definitionAt? afterWord s = some (record, rest)) : rest = [] ∨ Closed rest := by
  rw [definitionAt?, Option.ite_none_left_eq_some] at found
  obtain ⟨-, found⟩ := found
  unfold definition? at found
  split at found
  next typedefs =>
    cases found
    exact closed.past_typedef? typedefs
  next => exact closed.past_tagged? found

end Closed

/-! ## Records of appended texts -/

theorem extractFrom_nil (afterWord : Bool) : extractFrom afterWord [] = [] := by rw [extractFrom]

/-- The search goes through a closed text as if nothing followed, and starts anew behind it. -/
theorem Closed.extractFrom_append {s : Text} (closed : Closed s) (afterWord : Bool) (t : Text) :
    extractFrom afterWord (s ++ t) = extractFrom afterWord s ++ extractFrom false t := by
  induction size : s.length using Nat.strongRecOn generalizing s afterWord with
  | ind size ih =>
    subst size
    cases s with
    | nil => exact absurd rfl closed.ne_nil
    | cons c s =>
      have further := closed.definitionAt?_append t afterWord
      cases found : definitionAt? afterWord (c :: s) with
      | some result =>
        obtain ⟨record, rest⟩ := result
        rw [found] at further
        rw [extractFrom_of_found found, extractFrom_of_found further]
        rcases closed.past_definitionAt? found with rfl | left
        · rw [extractFrom_nil]
          rfl
        · rw [List.cons_append]
          exact congrArg _ (ih _ (definitionAt?_length found) left false rfl)
      | none =>
        rw [found, List.cons_append] at further
        rw [List.cons_append]
        rw [extractFrom_of_notFound found, extractFrom_of_notFound further]
        cases s with
        | nil =>
          -- the last character is a semicolon, so the next text does not go on with a word
          obtain rfl : c = ';' := Option.some.inj closed.ends
          rw [extractFrom_nil]
          rfl
        | cons d s =>
          have left : Closed (d :: s) := closed.behind (List.cons_ne_nil d s)
          exact ih _ (Nat.lt_succ_self _) left _ rfl

/-- Behind a semicolon, if the last brace before it closes one, the records are those of the text that
follows, after those of the text before. -/
theorem extract_append_closed {s : Text} (ends : s.getLast? = some ';')
    (lastBrace : ∀ brace, (s.filter fun c => c == '{' || c == '}').getLast? = some brace →
      brace = '}') (t : Text) : extract (s ++ t) = extract s ++ extract t :=
  (closed_of_lastBrace ends lastBrace).extractFrom_append false t

/-- A nested record keeps the one around it from being found, and neither changes what follows. -/
theorem extract_append_closed_nested :
    let s := "struct outer { struct { int depth; }; char tag; };".toList
    let t := " struct next { short size; };".toList
    s.getLast? = some ';' ∧
      (∀ brace, (s.filter fun c => c == '{' || c == '}').getLast? = some brace → brace = '}') ∧
      extract (s ++ t) = extract s ++ extract t := by
  intro s t
  have ends : s.getLast? = some ';' := rfl
  have lastBrace (brace : Char)
      (last : (s.filter fun c => c == '{' || c == '}').getLast? = some brace) : brace = '}' := by
    have braces : s.filter (fun c => c == '{' || c == '}') = ['{', '{', '}', '}'] := rfl
    rw [braces] at last
    exact (Option.some.inj last).symm
  exact ⟨ends, lastBrace, extract_append_closed ends lastBrace t⟩

end CHeader.Record
