import CHeader.Prototype
import CHeader.Proofs.Parameter.Written

/-!
# Written prototypes

A prototype is written as a return word with stars, a name, and its parameters in parentheses.
Extraction from a text of written prototypes gives back what each of them stands for, in order: in
the piece before a semicolon the first word starts a head, and that head takes the whole piece.
-/
namespace CHeader.Prototype

open Text

/-- A prototype as it is written. -/
structure Form where
  returns : Word
  stars : Nat
  name : Word
  parameters : List Parameter.Form
  /-- Is an empty list written as `void`? -/
  spelled : Bool
  unreserved : returns.text ∉ reservedWords
  proper : name.text ∉ Parameter.typeWords ∧ name.text ∉ reservedWords
  /-- A single unnamed `void` is an empty list. -/
  notVoid : parameters.map Parameter.Form.text ≠ ["void".toList]

namespace Form

def parametersText (form : Form) : Text :=
  if form.parameters.isEmpty && form.spelled then "void".toList
  else joinWith [',', ' '] (form.parameters.map Parameter.Form.text)

def returnsText (form : Form) : Text := form.returns.text ++ List.replicate form.stars '*'

def text (form : Form) : Text :=
  form.returnsText ++ ' ' :: (form.name.text ++ '(' :: (form.parametersText ++ [')']))

def prototype (form : Form) : Prototype :=
  ⟨form.name.text, form.returnsText, form.parameters.map Parameter.Form.parameter⟩

end Form

/-- Prototypes with blank space before each of them and after the last. -/
def written (forms : List (Gap × Form)) (ending : Gap) : Text :=
  (forms.flatMap fun (gap, form) => gap.text ++ form.text ++ [';']) ++ ending.text

/-! ## Parameters -/

namespace Form

theorem parseList_parametersText (form : Form) :
    Parameter.parseList form.parametersText = form.parameters.map Parameter.Form.parameter := by
  by_cases empty : form.parameters = []
  · -- the empty text and the word both stand for no parameters
    rw [parametersText, empty]
    cases form.spelled <;> decide
  · rw [parametersText, if_neg (by simp [empty])]
    exact Parameter.parseList_joinWith empty form.notVoid

theorem not_mem_semicolon (form : Form) : ';' ∉ form.text := by
  have parameters : ';' ∉ form.parametersText := by
    rw [parametersText]
    split
    · decide
    · apply not_mem_joinWith (by decide)
      intro piece member
      obtain ⟨parameter, -, rfl⟩ := List.mem_map.mp member
      exact parameter.not_mem_semicolon
  simp [text, returnsText, form.returns.not_mem (show isWord ';' = false by decide),
    form.name.not_mem (show isWord ';' = false by decide), parameters]

end Form

/-! ## Heads -/

theorem stars_replicate (count : Nat) (rest : Text) :
    stars (List.replicate count '*' ++ rest) =
      (List.replicate count '*' ++ (stars rest).1, (stars rest).2) := by
  induction count with
  | zero => rfl
  | succ count ih => simp [List.replicate_succ, stars, ih]

/-- A space before a word belongs to no star. -/
theorem stars_space (word : Word) (rest : Text) :
    stars (' ' :: (word.text ++ rest)) = ([], ' ' :: (word.text ++ rest)) := by
  -- blank space counts only before another star, and none comes before the word
  have nothing : (stars (word.text ++ rest)).1 = [] := by
    obtain ⟨c, others, start⟩ := List.exists_cons_of_ne_nil word.filled
    have inside : isWord c = true := word.chars c (start ▸ List.mem_cons_self)
    rw [start, List.cons_append, stars, if_neg (ne_of_isWord inside (by decide)),
      if_neg (by simp [isSpace_of_isWord inside])]
  rw [stars, if_neg (by decide), if_neg (by simp [nothing])]

theorem find?_gap {gap : Text} (blank : ∀ c ∈ gap, isSpace c = true) (piece : Text) :
    Head.find? false (gap ++ piece) = Head.find? false piece := by
  induction gap with
  | nil => rfl
  | cons c gap ih =>
    obtain ⟨here, others⟩ := List.forall_mem_cons.mp blank
    rw [List.cons_append, Head.find?, isWord_of_isSpace here, if_neg (by simp), ih others]

section

variable (returns : Word) (count : Nat) (name : Word) (parameters : Text)

/-- A return word with stars, a name, and parameters in parentheses. -/
def headText : Text :=
  returns.text ++ List.replicate count '*' ++
    ' ' :: (name.text ++ '(' :: (parameters ++ [')']))

theorem at?_headText :
    Head.at? (headText returns count name parameters) =
      some ⟨returns.text ++ List.replicate count '*', name.text, parameters⟩ := by
  have first : word? (headText returns count name parameters) =
      some (returns.text, List.replicate count '*' ++
        ' ' :: (name.text ++ '(' :: (parameters ++ [')']))) := by
    rw [headText, List.append_assoc]
    -- a star or the space follows the return word
    refine returns.word?_append fun c first => ?_
    cases count with
    | zero =>
      cases Option.some.inj (Option.mem_def.mp first)
      decide
    | succ more =>
      cases Option.some.inj (Option.mem_def.mp first)
      decide
  have closing : trimEnd (parameters ++ [')']) = parameters ++ [')'] :=
    (ends_concat (by decide) _).trimEnd
  simp only [Head.at?, first, stars_replicate, stars_space, Option.bind_eq_bind,
    Option.bind_some, trimStart_space, Word.trimStart_append,
    name.word?_append_cons (show isWord '(' = false by decide),
    dropLeading?_trimStart (show isSpace '(' = false by decide), closing, dropLast?_concat,
    List.append_nil, Option.pure_def]

theorem returnWord_eq :
    Head.returnWord ⟨returns.text ++ List.replicate count '*', name.text, parameters⟩ =
      returns.text :=
  Parameter.dropEndWhile_phrase (show [returns] ≠ [] by simp) fun _ star =>
    Or.inr (List.eq_of_mem_replicate star)

/-- The word that a piece begins with starts the head that decides. -/
theorem find?_headText (gap : Gap) :
    Head.find? false (gap.text ++ headText returns count name parameters) =
      some ⟨returns.text ++ List.replicate count '*', name.text, parameters⟩ := by
  obtain ⟨c, others, start⟩ := List.exists_cons_of_ne_nil returns.filled
  have inside : isWord c = true := returns.chars c (start ▸ List.mem_cons_self)
  have whole : headText returns count name parameters =
      c :: (others ++ List.replicate count '*' ++
        ' ' :: (name.text ++ '(' :: (parameters ++ [')']))) := by
    rw [headText, start]
    rfl
  have first := at?_headText returns count name parameters
  -- no head starts in the gap, and the first one at the word takes the whole piece
  rw [whole] at first ⊢
  rw [find?_gap gap.blank, Head.find?, if_pos (by simp [inside]), first]

theorem ofPiece?_headText (unreserved : returns.text ∉ reservedWords)
    (proper : name.text ∉ Parameter.typeWords ∧ name.text ∉ reservedWords) (gap : Gap) :
    ofPiece? (gap.text ++ headText returns count name parameters) =
      some ⟨name.text, returns.text ++ List.replicate count '*',
        Parameter.parseList parameters⟩ := by
  rw [ofPiece?, find?_headText, Option.bind_some, Head.prototype?, returnWord_eq,
    if_neg (by simp [proper, unreserved])]

end

theorem Form.ofPiece?_text (form : Form) (gap : Gap) :
    ofPiece? (gap.text ++ form.text) = some form.prototype := by
  have read := ofPiece?_headText form.returns form.stars form.name form.parametersText
    form.unreserved form.proper gap
  rwa [form.parseList_parametersText] at read

/-! ## Texts -/

theorem extract_append {piece : Text} (whole : ';' ∉ piece) (rest : Text) :
    extract (piece ++ ';' :: rest) = (ofPiece? piece).toList ++ extract rest := by
  rw [extract, splitOn_append_cons whole, List.dropLast_cons_of_ne_nil (splitOn_ne_nil ';' rest),
    List.filterMap_cons, extract]
  cases ofPiece? piece <;> rfl

/-- What follows the last semicolon declares nothing. -/
theorem extract_gap (gap : Gap) : extract gap.text = [] := by
  rw [extract, splitOn_eq_singleton (gap.not_mem (by decide))]
  rfl

theorem extract_written (forms : List (Gap × Form)) (ending : Gap) :
    extract (written forms ending) = forms.map fun (_, form) => form.prototype := by
  induction forms with
  | nil => exact extract_gap ending
  | cons first forms ih =>
    obtain ⟨gap, form⟩ := first
    have whole : written ((gap, form) :: forms) ending =
        (gap.text ++ form.text) ++ ';' :: written forms ending := by
      simp [written]
    have single : ';' ∉ gap.text ++ form.text := by
      simp [gap.not_mem (show isSpace ';' = false by decide), form.not_mem_semicolon]
    rw [whole, extract_append single, form.ofPiece?_text gap, ih]
    rfl

/-- A prototype with an unnamed, a named and a function pointer parameter, whose arguments hold a
comma of their own. -/
def Form.sort : Form where
  returns := ⟨"void".toList, by decide, by decide⟩
  stars := 1
  name := ⟨"sort".toList, by decide, by decide⟩
  parameters := [
    .typeWords [⟨"unsigned".toList, by decide, by decide⟩] (by decide)
      ⟨"int".toList, by decide, by decide⟩ (by decide),
    .named ⟨⟨[⟨"char".toList, by decide, by decide⟩], by decide, [1]⟩, false,
      ⟨"names".toList, by decide, by decide⟩, [⟨"3".toList, by decide⟩],
      by decide, by decide, by decide⟩,
    .callback ⟨⟨[⟨"int".toList, by decide, by decide⟩], by decide, []⟩,
      ⟨"less".toList, by decide, by decide⟩, "char *, char *".toList, by decide,
      ⟨by decide, by decide⟩, by decide, by decide⟩]
  spelled := false
  unreserved := by decide
  proper := by decide
  notVoid := by decide

theorem extract_written_sort :
    extract "\nvoid* sort(unsigned int, char *names[3], int (*less)(char *, char *));".toList =
      [⟨"sort".toList, "void*".toList, [⟨"unsigned int".toList, none⟩,
        ⟨"char *[3]".toList, some "names".toList⟩,
        ⟨"int (*less)(char *, char *)".toList, some "less".toList⟩]⟩] :=
  extract_written [(⟨['\n'], by decide⟩, Form.sort)] ⟨[], by decide⟩

/-! ## Names -/

theorem Head.exists_name {piece : Text} {head : Head} (found : Head.at? piece = some head) :
    ∃ word : Word, word.text = head.name := by
  simp only [Head.at?, Option.bind_eq_bind, Option.bind_eq_some_iff] at found
  obtain ⟨_, -, ⟨name, _⟩, named, _, -, _, -, made⟩ := found
  obtain ⟨word, rfl, -⟩ := exists_word named
  cases made
  exact ⟨word, rfl⟩

/-- What is found stands at some place of the piece. -/
theorem Head.exists_at? {piece : Text} {head : Head} {afterWord : Bool}
    (found : Head.find? afterWord piece = some head) : ∃ rest, Head.at? rest = some head := by
  induction piece generalizing afterWord with
  | nil => cases found
  | cons c rest ih =>
    rw [Head.find?] at found
    split at found
    · cases here : Head.at? (c :: rest) with
      | some first =>
        rw [here] at found
        cases found
        exact ⟨c :: rest, here⟩
      | none =>
        rw [here] at found
        exact ih found
    · exact ih found

/-- The name of a function is a word of the text. -/
theorem exists_name {flat : Text} {function : Prototype} (member : function ∈ extract flat) :
    ∃ word : Word, word.text = function.name := by
  obtain ⟨piece, -, declared⟩ := List.mem_filterMap.mp member
  obtain ⟨head, found, made⟩ := Option.bind_eq_some_iff.mp declared
  obtain ⟨rest, here⟩ := Head.exists_at? found
  rw [Head.prototype?] at made
  split at made
  · cases made
  · cases made
    exact Head.exists_name here

end CHeader.Prototype
