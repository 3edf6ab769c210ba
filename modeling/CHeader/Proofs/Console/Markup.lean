import CHeader.Console.Markup
import Mathlib.Data.List.TakeWhile

/-!
# Which texts are markup

A text can be shown unless one of its closing tags has nothing to close, so all that counts is which
tags it holds and in which order. Tags are found one after the other; what follows a text adds its own
tags, and can only take away one that the text's last backslashes stand in front of. An escaped text
holds no tags at all.
-/
namespace CHeader.Console.Markup

open Text

variable {s t body after : Text} {c : Char} {count position : Nat}

/-! ## One tag -/

/-- What may stand between the brackets of a tag. -/
structure IsTagBody (body : Text) : Prop where
  opens : body.head?.any opensTag = true
  unopened : '[' ∉ body
  unclosed : ']' ∉ body

theorem untilBracket?_eq_some_iff :
    untilBracket? s = some (body, after) ↔ s = body ++ ']' :: after ∧ '[' ∉ body ∧ ']' ∉ body := by
  induction s generalizing body with
  | nil => simp [untilBracket?]
  | cons c rest ih =>
    rw [untilBracket?]
    split
    next closing =>
      subst closing
      constructor
      · intro found
        cases found
        simp
      · rintro ⟨whole, unopened, unclosed⟩
        cases body with
        | nil =>
          cases whole
          rfl
        | cons d body =>
          cases whole
          simp at unclosed
    next other =>
      split
      next opening =>
        subst opening
        constructor
        · intro found
          cases found
        · rintro ⟨whole, unopened, unclosed⟩
          cases body with
          | nil => cases whole
          | cons d body =>
            cases whole
            simp at unopened
      next plain =>
        rw [Option.map_eq_some_iff]
        constructor
        · rintro ⟨⟨inner, rest'⟩, found, same⟩
          cases same
          obtain ⟨rfl, unopened, unclosed⟩ := ih.mp found
          exact ⟨rfl, by simp [unopened, Ne.symm plain], by simp [unclosed, Ne.symm other]⟩
        · rintro ⟨whole, unopened, unclosed⟩
          cases body with
          | nil =>
            cases whole
            exact absurd rfl other
          | cons d body =>
            cases whole
            rw [List.mem_cons, not_or] at unopened unclosed
            exact ⟨(body, after), ih.mpr ⟨rfl, unopened.2, unclosed.2⟩, rfl⟩

theorem tag?_eq_some_iff :
    tag? s = some (body, after) ↔ s = '[' :: body ++ ']' :: after ∧ IsTagBody body := by
  constructor
  · intro found
    unfold tag? at found
    split at found
    next c rest =>
      split at found
      next opens =>
        obtain ⟨⟨inner, rest'⟩, inside, same⟩ := Option.map_eq_some_iff.mp found
        cases same
        obtain ⟨rfl, unopened, unclosed⟩ := untilBracket?_eq_some_iff.mp inside
        have apart : c ≠ '[' ∧ c ≠ ']' := by
          constructor <;> rintro rfl <;> exact absurd opens (by decide)
        exact ⟨rfl, opens, by simp [unopened, Ne.symm apart.1], by simp [unclosed, Ne.symm apart.2]⟩
      next => cases found
    next => cases found
  · rintro ⟨rfl, opens, unopened, unclosed⟩
    cases body with
    | nil => cases opens
    | cons c body =>
      rw [List.mem_cons, not_or] at unopened unclosed
      have inside : untilBracket? (body ++ ']' :: after) = some (body, after) :=
        untilBracket?_eq_some_iff.mpr ⟨rfl, unopened.2, unclosed.2⟩
      have first : opensTag c = true := opens
      rw [List.cons_append, List.cons_append, tag?, if_pos first, inside, Option.map_some]

theorem escapedTag?_eq_some_iff :
    escapedTag? s = some (count, body, after) ↔
      s = List.replicate count '\\' ++ ('[' :: body ++ ']' :: after) ∧ IsTagBody body := by
  induction s generalizing count with
  | nil => simp [escapedTag?]
  | cons c rest ih =>
    rw [escapedTag?]
    split
    next backslash =>
      subst backslash
      rw [Option.map_eq_some_iff]
      constructor
      · rintro ⟨⟨fewer, found⟩, inside, same⟩
        cases same
        obtain ⟨rfl, isBody⟩ := ih.mp inside
        exact ⟨rfl, isBody⟩
      · rintro ⟨whole, isBody⟩
        cases count with
        | zero => cases whole
        | succ count =>
          rw [List.replicate_succ, List.cons_append, List.cons_inj_right] at whole
          exact ⟨(count, body, after), ih.mpr ⟨whole, isBody⟩, rfl⟩
    next other =>
      rw [Option.map_eq_some_iff]
      constructor
      · rintro ⟨found, inside, same⟩
        cases same
        exact tag?_eq_some_iff.mp inside
      · rintro ⟨whole, isBody⟩
        cases count with
        | zero => exact ⟨(body, after), tag?_eq_some_iff.mpr ⟨whole, isBody⟩, rfl⟩
        | succ count =>
          cases whole
          exact absurd rfl other

theorem escapedTag?_eq_none (unopened : '[' ∉ s) : escapedTag? s = none := by
  rw [Option.eq_none_iff_forall_ne_some]
  rintro ⟨count, body, after⟩ found
  rw [(escapedTag?_eq_some_iff.mp found).1] at unopened
  simp at unopened

/-! ## All tags -/

def Piece.tag? : Piece → Option Tag
  | shown _ => none
  | tag _ found => some found

/-- The tags of a text, without those that backslashes make text. -/
def tags (s : Text) : List Tag := (pieces 0 s).filterMap Piece.tag?

theorem pieces_of_escapedTag? (position : Nat) (found : escapedTag? s = some (count, body, after)) :
    pieces position s = .shown (List.replicate (count / 2) '\\') ::
      (if count % 2 = 1 then .shown ('[' :: body ++ [']'])
        else .tag (position + count) (Tag.ofText body)) ::
      pieces (position + count + body.length + 2) after := by
  rw [pieces]
  split
  next count' body' after' found' =>
    rw [found] at found'
    cases found'
    split <;> rfl
  next absent =>
    rw [found] at absent
    cases absent

theorem pieces_cons (position : Nat) (absent : escapedTag? (c :: s) = none) :
    pieces position (c :: s) =
      if c = '\\' ∧ s.head? = some '[' then .shown ['['] :: pieces (position + 2) (s.drop 1)
      else .shown [c] :: pieces (position + 1) s := by
  rw [pieces]
  split
  next found =>
    rw [found] at absent
    cases absent
  next => rfl

/-- Where a text stands does not matter for its tags. -/
theorem filterMap_pieces (position : Nat) (s : Text) :
    (pieces position s).filterMap Piece.tag? = tags s := by
  obtain ⟨length, bound⟩ : ∃ length, s.length ≤ length := ⟨_, Nat.le_refl _⟩
  induction length generalizing s position with
  | zero =>
    rw [List.eq_nil_of_length_eq_zero (Nat.le_zero.mp bound), tags, pieces, pieces]
    rfl
  | succ length ih =>
    rw [tags]
    cases found : escapedTag? s with
    | some first =>
      obtain ⟨count, body, after⟩ := first
      have shorter := escapedTag?_length found
      rw [pieces_of_escapedTag? position found, pieces_of_escapedTag? 0 found]
      have later := ih (0 + count + body.length + 2) after (by omega)
      have later' := ih (position + count + body.length + 2) after (by omega)
      split <;> simp only [List.filterMap_cons, Piece.tag?, later, later']
    | none =>
      cases s with
      | nil =>
        rw [pieces, pieces]
        rfl
      | cons c rest =>
        rw [List.length_cons] at bound
        rw [pieces_cons position found, pieces_cons 0 found]
        have dropped : (rest.drop 1).length ≤ length := by
          rw [List.length_drop]
          omega
        split
        · simp only [List.filterMap_cons, Piece.tag?, ih _ _ dropped]
        · simp only [List.filterMap_cons, Piece.tag?, ih _ rest (by omega)]

@[simp] theorem tags_nil : tags [] = [] := by
  rw [tags, pieces]
  rfl

theorem tags_of_escapedTag? (found : escapedTag? s = some (count, body, after)) :
    tags s = (if count % 2 = 1 then [] else [Tag.ofText body]) ++ tags after := by
  rw [tags, pieces_of_escapedTag? 0 found]
  split <;> simp only [List.filterMap_cons, Piece.tag?, filterMap_pieces, List.nil_append,
    List.cons_append]

/-- A character that begins no tag does not count. If it is a backslash that takes the bracket after
it along, that bracket begins no tag either. -/
theorem tags_cons (absent : escapedTag? (c :: s) = none) : tags (c :: s) = tags s := by
  rw [tags, pieces_cons 0 absent]
  split
  next taken =>
    obtain ⟨rfl, bracket⟩ := taken
    obtain ⟨rest, rfl⟩ := List.head?_eq_some_iff.mp bracket
    have plain : escapedTag? ('[' :: rest) = none := by
      simpa [escapedTag?] using absent
    have step := pieces_cons 0 plain
    rw [if_neg (by simp)] at step
    rw [tags, step]
    simp only [List.filterMap_cons, Piece.tag?, List.drop_succ_cons, List.drop_zero, filterMap_pieces]
  next => simp only [List.filterMap_cons, Piece.tag?, filterMap_pieces]

theorem tags_eq_nil (unopened : '[' ∉ s) : tags s = [] := by
  induction s with
  | nil => exact tags_nil
  | cons c s ih =>
    rw [tags_cons (escapedTag?_eq_none unopened)]
    exact ih fun member => unopened (List.mem_cons_of_mem c member)

/-- A text without brackets and backslashes in front of another one adds no tags to it. -/
theorem tags_append_of_plain (unopened : '[' ∉ s) (unescaping : '\\' ∉ s) (t : Text) :
    tags (s ++ t) = tags t := by
  induction s with
  | nil => rfl
  | cons c s ih =>
    rw [List.mem_cons, not_or] at unopened unescaping
    have absent : escapedTag? (c :: (s ++ t)) = none := by
      rw [escapedTag?, if_neg (Ne.symm unescaping.1)]
      cases s ++ t <;> simp [tag?, Ne.symm unopened.1]
    rw [List.cons_append, tags_cons absent, ih unopened.2 unescaping.2]

/-! ## A text and what follows it -/

/-- A text that cannot be the end of a tag that begins before it. -/
structure Apart (t : Text) : Prop where
  first : t.head?.all (!opensTag ·) = true
  unclosed : untilBracket? t = none

theorem untilBracket?_append (unclosed : untilBracket? t = none) (s : Text) :
    untilBracket? (s ++ t) = (untilBracket? s).map fun (body, after) => (body, after ++ t) := by
  induction s with
  | nil => rw [List.nil_append, unclosed, untilBracket?, Option.map_none]
  | cons c s ih =>
    rw [List.cons_append, untilBracket?, untilBracket?, ih]
    split
    · rfl
    · split
      · rfl
      · rw [Option.map_map, Option.map_map]
        rfl

theorem Apart.tag?_append (apart : Apart t) (c : Char) (s : Text) :
    tag? (c :: s ++ t) = (tag? (c :: s)).map fun (body, after) => (body, after ++ t) := by
  cases s with
  | nil =>
    have first := apart.first
    cases t with
    | nil => simp [tag?]
    | cons d t =>
      have shut : opensTag d = false := by simpa using first
      by_cases bracket : c = '[' <;> simp [tag?, shut, bracket]
  | cons d s =>
    by_cases bracket : c = '['
    · subst bracket
      rw [List.cons_append, List.cons_append, tag?, tag?]
      split
      · rw [untilBracket?_append apart.unclosed, Option.map_map, Option.map_map]
        rfl
      · rfl
    · simp [tag?, bracket]

theorem Apart.escapedTag?_append (apart : Apart t) (solid : ∃ c ∈ s, c ≠ '\\') :
    escapedTag? (s ++ t) =
      (escapedTag? s).map fun (count, body, after) => (count, body, after ++ t) := by
  induction s with
  | nil => simp at solid
  | cons c s ih =>
    rw [List.cons_append, escapedTag?, escapedTag?]
    split
    next backslash =>
      have later : ∃ c ∈ s, c ≠ '\\' := by simpa [backslash] using solid
      rw [ih later, Option.map_map, Option.map_map]
      rfl
    next =>
      have first := apart.tag?_append c s
      rw [List.cons_append] at first
      rw [first, Option.map_map, Option.map_map]
      rfl

/-- What follows a text that ends in no backslash has its own tags. -/
theorem Apart.tags_append (apart : Apart t) (ends : s.getLast? ≠ some '\\') :
    tags (s ++ t) = tags s ++ tags t := by
  obtain ⟨length, bound⟩ : ∃ length, s.length ≤ length := ⟨_, Nat.le_refl _⟩
  induction length generalizing s with
  | zero => simp [List.eq_nil_of_length_eq_zero (Nat.le_zero.mp bound)]
  | succ length ih =>
    cases s with
    | nil => simp
    | cons c rest =>
      obtain ⟨last, isLast⟩ : ∃ last, (c :: rest).getLast? = some last :=
        ⟨_, List.getLast?_eq_some_getLast (List.cons_ne_nil c rest)⟩
      have solid : ∃ c' ∈ c :: rest, c' ≠ '\\' :=
        ⟨last, List.mem_of_getLast? isLast, by rintro rfl; exact ends isLast⟩
      have whole := apart.escapedTag?_append solid
      cases found : escapedTag? (c :: rest) with
      | some first =>
        obtain ⟨count, body, after⟩ := first
        rw [found, Option.map_some] at whole
        have shorter := escapedTag?_length found
        have ends' : after.getLast? ≠ some '\\' := by
          intro backslash
          apply ends
          rw [(escapedTag?_eq_some_iff.mp found).1]
          simp [List.getLast?_append, List.getLast?_cons, backslash]
        rw [tags_of_escapedTag? whole, tags_of_escapedTag? found, ih ends' (by omega),
          List.append_assoc]
      | none =>
        rw [found, Option.map_none, List.cons_append] at whole
        rw [List.length_cons] at bound
        have ends' : rest.getLast? ≠ some '\\' := by
          intro backslash
          apply ends
          simp [List.getLast?_cons, backslash]
        rw [List.cons_append, tags_cons whole, tags_cons found, ih ends' (by omega)]

/-! ## Backslashes at the end -/

theorem apart_nil : Apart [] := ⟨rfl, rfl⟩

/-- A tag is apart from the text in front of it. -/
theorem apart_bracket (s : Text) : Apart ('[' :: s) := ⟨rfl, rfl⟩

theorem Apart.backslashes (apart : Apart t) (count : Nat) :
    Apart (List.replicate count '\\' ++ t) := by
  induction count with
  | zero => exact apart
  | succ count ih =>
    refine ⟨rfl, ?_⟩
    rw [List.replicate_succ, List.cons_append, untilBracket?, ih.unclosed]
    rfl

/-- How many backslashes a text ends in. -/
def lastBackslashes (s : Text) : Nat := (s.reverse.takeWhile (· = '\\')).length

theorem exists_lastBackslashes (s : Text) :
    ∃ front, s = front ++ List.replicate (lastBackslashes s) '\\' ∧
      front.getLast? ≠ some '\\' := by
  have run : s.reverse.takeWhile (· = '\\') = List.replicate (lastBackslashes s) '\\' := by
    rw [List.eq_replicate_iff]
    exact ⟨rfl, fun c member => by simpa using List.mem_takeWhile_imp member⟩
  refine ⟨(s.reverse.dropWhile (· = '\\')).reverse, ?_, ?_⟩
  · calc s
      _ = (s.reverse.takeWhile (· = '\\') ++ s.reverse.dropWhile (· = '\\')).reverse := by
        rw [List.takeWhile_append_dropWhile, List.reverse_reverse]
      _ = (s.reverse.dropWhile (· = '\\')).reverse ++
          List.replicate (lastBackslashes s) '\\' := by
        rw [run, List.reverse_append, List.reverse_replicate]
  · rw [List.getLast?_reverse]
    intro backslash
    have stop := List.head?_dropWhile_not (· = '\\') s.reverse
    rw [backslash] at stop
    simp at stop

/-- Backslashes at the end of a text change nothing. -/
theorem tags_append_backslashes (s : Text) (count : Nat) :
    tags (s ++ List.replicate count '\\') = tags s := by
  have alone (count : Nat) : tags (List.replicate count '\\') = [] :=
    tags_eq_nil (by simp [List.mem_replicate])
  have run (count : Nat) : Apart (List.replicate count '\\') := by
    have apart := apart_nil.backslashes count
    rwa [List.append_nil] at apart
  obtain ⟨front, whole, ends⟩ := exists_lastBackslashes s
  generalize lastBackslashes s = count' at whole
  subst whole
  rw [List.append_assoc, List.replicate_append_replicate, (run _).tags_append ends, alone,
    (run _).tags_append ends, alone]

/-- A tag after a text is one of the tags, unless the text ends in an odd number of backslashes. -/
theorem tags_append_tag (isBody : IsTagBody body) (s : Text) :
    tags (s ++ ('[' :: body ++ [']'])) =
      tags s ++ if lastBackslashes s % 2 = 1 then [] else [Tag.ofText body] := by
  obtain ⟨front, whole, ends⟩ := exists_lastBackslashes s
  generalize lastBackslashes s = count at whole ⊢
  subst whole
  have apart := (apart_bracket (body ++ [']'])).backslashes count
  have found : escapedTag? (List.replicate count '\\' ++ '[' :: (body ++ [']'])) =
      some (count, body, []) :=
    escapedTag?_eq_some_iff.mpr ⟨rfl, isBody⟩
  rw [List.append_assoc, List.cons_append, apart.tags_append ends, tags_of_escapedTag? found,
    tags_append_backslashes, tags_nil, List.append_nil]

/-! ## Escaped text -/

theorem escapeTags_of_escapedTag? (found : escapedTag? s = some (count, body, after)) :
    escapeTags s = List.replicate (2 * count + 1) '\\' ++ '[' :: body ++ ']' :: escapeTags after := by
  rw [escapeTags]
  split
  next count' body' after' found' =>
    rw [found] at found'
    cases found'
    rfl
  next absent =>
    rw [found] at absent
    cases absent

theorem escapeTags_cons (absent : escapedTag? (c :: s) = none) :
    escapeTags (c :: s) = c :: escapeTags s := by
  rw [escapeTags]
  split
  next found =>
    rw [found] at absent
    cases absent
  next => rfl

/-- Escaping ends no bracket that was not ended before. -/
theorem untilBracket?_escapeTags (unclosed : untilBracket? s = none) :
    untilBracket? (escapeTags s) = none := by
  induction s with
  | nil =>
    rw [escapeTags]
    rfl
  | cons c s ih =>
    cases found : escapedTag? (c :: s) with
    | some first =>
      -- the next bracket opens a tag
      obtain ⟨count, body, after⟩ := first
      rw [escapeTags_of_escapedTag? found, List.append_assoc]
      exact ((apart_bracket _).backslashes _).unclosed
    | none =>
      rw [escapeTags_cons found, untilBracket?]
      rw [untilBracket?] at unclosed
      split
      next closing => simp [closing] at unclosed
      next other =>
        split
        next => rfl
        next plain =>
          rw [if_neg other, if_neg plain, Option.map_eq_none_iff] at unclosed
          rw [ih unclosed, Option.map_none]

theorem tag?_escapeTags (absent : tag? (c :: s) = none) : tag? (c :: escapeTags s) = none := by
  by_cases bracket : c = '['
  · subst bracket
    cases s with
    | nil =>
      rw [escapeTags]
      rfl
    | cons d s =>
      cases found : escapedTag? (d :: s) with
      | some first =>
        -- a backslash follows the bracket
        obtain ⟨count, body, after⟩ := first
        rw [escapeTags_of_escapedTag? found, List.replicate_succ]
        rfl
      | none =>
        rw [escapeTags_cons found, tag?]
        rw [tag?] at absent
        split
        next opens =>
          rw [if_pos opens, Option.map_eq_none_iff] at absent
          rw [untilBracket?_escapeTags absent, Option.map_none]
        next => rfl
  · simp [tag?, bracket]

/-- Where no tag begins, none begins in the escaped text. -/
theorem escapedTag?_escapeTags (absent : escapedTag? s = none) :
    escapedTag? (escapeTags s) = none := by
  induction s with
  | nil =>
    rw [escapeTags]
    rfl
  | cons c s ih =>
    rw [escapeTags_cons absent, escapedTag?]
    rw [escapedTag?] at absent
    split
    next backslash =>
      rw [if_pos backslash, Option.map_eq_none_iff] at absent
      rw [ih absent, Option.map_none]
    next other =>
      rw [if_neg other, Option.map_eq_none_iff] at absent
      rw [tag?_escapeTags absent, Option.map_none]

theorem tags_escapeTags (s : Text) : tags (escapeTags s) = [] := by
  obtain ⟨length, bound⟩ : ∃ length, s.length ≤ length := ⟨_, Nat.le_refl _⟩
  induction length generalizing s with
  | zero =>
    rw [List.eq_nil_of_length_eq_zero (Nat.le_zero.mp bound), escapeTags]
    exact tags_nil
  | succ length ih =>
    cases found : escapedTag? s with
    | some first =>
      obtain ⟨count, body, after⟩ := first
      have shorter := escapedTag?_length found
      have escaped : escapedTag? (escapeTags s) = some (2 * count + 1, body, escapeTags after) := by
        rw [escapeTags_of_escapedTag? found, escapedTag?_eq_some_iff]
        exact ⟨by simp, (escapedTag?_eq_some_iff.mp found).2⟩
      have odd : (2 * count + 1) % 2 = 1 := by omega
      rw [tags_of_escapedTag? escaped, if_pos odd, List.nil_append, ih after (by omega)]
    | none =>
      cases s with
      | nil =>
        rw [escapeTags]
        exact tags_nil
      | cons c s =>
        have absent := escapedTag?_escapeTags found
        rw [escapeTags_cons found] at absent ⊢
        rw [List.length_cons] at bound
        rw [tags_cons absent, ih s (by omega)]

/-- An escaped text holds no tags. -/
theorem tags_escape (s : Text) : tags (escape s) = [] := by
  rw [escape]
  split
  · exact tags_escapeTags s
  · have single := tags_append_backslashes (escapeTags s) 1
    rw [tags_escapeTags] at single
    exact single
  · exact tags_escapeTags s

/-! ## What is shown -/

/-- The open tags after one more tag, unless that closes something and nothing of the kind is open. -/
def openAfter? (active : List Text) (tag : Tag) : Option (List Text) :=
  if tag.name.head? = some '/' then (close 0 tag active).toOption
  else some (Style.normalForm tag.name :: active)

/-- The tags that are open in the end, unless a closing tag had nothing to close. -/
def leftOpen? (active : List Text) (tags : List Tag) : Option (List Text) :=
  tags.foldlM openAfter? active

theorem toOption_close (position : Nat) (tag : Tag) (active : List Text) :
    (close position tag active).toOption = (close 0 tag active).toOption := by
  simp only [close]
  split
  · cases active <;> rfl
  · split <;> rfl

theorem openAfter?_closing {tag : Tag} {name : Text} (closing : tag.name.head? = some '/')
    (named : trim (tag.name.drop 1) = name) (filled : name ≠ []) (active : List Text) :
    openAfter? active tag =
      if Style.normalForm name ∈ active then some (active.erase (Style.normalForm name)) else none := by
  simp only [openAfter?, closing, if_true, close, named]
  cases name with
  | nil => exact absurd rfl filled
  | cons c name => split <;> rfl

/-- A text is shown if and only if each of its closing tags has something to close. -/
theorem shownText_ok_iff {active : List Text} {parts : List Piece} :
    (∃ text, shownText active parts = .ok text) ↔
      ∃ left, leftOpen? active (parts.filterMap Piece.tag?) = some left := by
  induction parts generalizing active with
  | nil => simp [shownText, leftOpen?]
  | cons part rest ih =>
    cases part with
    | shown text =>
      simp only [shownText, List.filterMap_cons, Piece.tag?, ← ih]
      cases shownText active rest <;> simp [Except.map]
    | tag position found =>
      simp only [shownText, List.filterMap_cons, Piece.tag?, leftOpen?, List.foldlM_cons, openAfter?]
      split
      next =>
        rw [← toOption_close position]
        cases close position found active with
        | ok active' => exact ih
        | error cause => simp [Except.toOption]
      next => exact ih

/-- Each closing tag of a text has something to close. -/
def WellClosed (markup : Text) : Prop := ∃ left, leftOpen? [] (tags markup) = some left

theorem render_ok_iff : (∃ text, render s = .ok text) ↔ WellClosed s := by
  rw [WellClosed, tags, ← shownText_ok_iff, render]
  cases shownText [] (pieces 0 s) <;> simp [Except.map]

theorem wellClosed_of_tags (none : tags s = []) : WellClosed s := ⟨[], by rw [none]; rfl⟩

end CHeader.Console.Markup
