import CHeader.Text.Basic
import Mathlib.Data.List.Basic

/-!
# Splitting and joining

Splitting a text at a separator undoes joining pieces by it that do not hold it.
-/
namespace CHeader.Text

theorem splitOn_cons_self (separator : Char) (s : Text) :
    splitOn separator (separator :: s) = [] :: splitOn separator s := by
  simp [splitOn]

theorem splitOn_ne_nil (separator : Char) (s : Text) : splitOn separator s ≠ [] := by
  cases s with
  | nil => simp [splitOn]
  | cons c rest =>
    rw [splitOn]
    split
    · simp
    · split <;> simp

theorem splitOn_eq_singleton {separator : Char} {s : Text} (absent : separator ∉ s) :
    splitOn separator s = [s] := by
  induction s with
  | nil => rfl
  | cons c rest ih =>
    simp only [List.mem_cons, not_or] at absent
    simp [splitOn, Ne.symm absent.1, ih absent.2]

theorem splitOn_append_cons {separator : Char} {piece : Text} (absent : separator ∉ piece)
    (s : Text) : splitOn separator (piece ++ separator :: s) = piece :: splitOn separator s := by
  induction piece with
  | nil => simp [splitOn]
  | cons c rest ih =>
    simp only [List.mem_cons, not_or] at absent
    simp [splitOn, Ne.symm absent.1, ih absent.2]

theorem splitOn_append (separator : Char) (s t : Text) :
    splitOn separator (s ++ separator :: t) = splitOn separator s ++ splitOn separator t := by
  induction s with
  | nil => exact splitOn_cons_self separator t
  | cons c s ih =>
    rw [List.cons_append, splitOn, splitOn, ih]
    by_cases same : c = separator
    · simp [same]
    · obtain ⟨piece, pieces, cut⟩ := List.exists_cons_of_ne_nil (splitOn_ne_nil separator s)
      simp [same, cut]

theorem not_mem_of_mem_splitOn {separator : Char} {s piece : Text}
    (member : piece ∈ splitOn separator s) : separator ∉ piece := by
  induction s generalizing piece with
  | nil =>
    simp only [splitOn, List.mem_singleton] at member
    simp [member]
  | cons c rest ih =>
    simp only [splitOn] at member
    split at member
    next =>
      rcases List.mem_cons.mp member with rfl | later
      · simp
      · exact ih later
    next differ =>
      split at member
      next first others split =>
        have clean := ih (split ▸ List.mem_cons_self)
        rcases List.mem_cons.mp member with rfl | later
        · simp [Ne.symm differ, clean]
        · exact ih (split ▸ List.mem_cons_of_mem first later)
      next => simp_all [Ne.symm differ]

theorem mem_of_mem_splitOn {separator c : Char} {s piece : Text} (member : piece ∈ splitOn separator s)
    (inside : c ∈ piece) : c ∈ s := by
  induction s generalizing piece with
  | nil =>
    simp only [splitOn, List.mem_singleton] at member
    exact member ▸ inside
  | cons d rest ih =>
    simp only [splitOn] at member
    split at member
    next =>
      rcases List.mem_cons.mp member with rfl | later
      · cases inside
      · exact List.mem_cons_of_mem d (ih later inside)
    next =>
      split at member
      next first others split =>
        rcases List.mem_cons.mp member with rfl | later
        · rcases List.mem_cons.mp inside with rfl | below
          · exact List.mem_cons_self
          · exact List.mem_cons_of_mem d (ih (split ▸ List.mem_cons_self) below)
        · exact List.mem_cons_of_mem d (ih (split ▸ List.mem_cons_of_mem first later) inside)
      next =>
        rw [List.mem_singleton.mp member] at inside
        exact List.mem_cons.mpr (Or.inl (List.mem_singleton.mp inside))

theorem joinWith_cons_of_ne_nil (separator piece : Text) {pieces : List Text}
    (more : pieces ≠ []) :
    joinWith separator (piece :: pieces) = piece ++ separator ++ joinWith separator pieces := by
  cases pieces with
  | nil => exact absurd rfl more
  | cons next others => rfl

theorem joinWith_append (separator : Text) {pieces others : List Text} (some_piece : pieces ≠ [])
    (more : others ≠ []) :
    joinWith separator (pieces ++ others) =
      joinWith separator pieces ++ separator ++ joinWith separator others := by
  induction pieces with
  | nil => exact absurd rfl some_piece
  | cons piece pieces ih =>
    cases pieces with
    | nil => exact joinWith_cons_of_ne_nil separator piece more
    | cons next pieces =>
      rw [List.cons_append, joinWith_cons_of_ne_nil _ _ (by simp), ih (by simp),
        joinWith_cons_of_ne_nil separator piece (List.cons_ne_nil next pieces)]
      simp only [List.append_assoc]

theorem eq_nil_of_joinWith {separator : Text} {pieces : List Text}
    (filled : ∀ piece ∈ pieces, piece ≠ []) (empty : joinWith separator pieces = []) :
    pieces = [] := by
  cases pieces with
  | nil => rfl
  | cons piece pieces =>
    have first := filled piece List.mem_cons_self
    cases pieces with
    | nil => exact absurd empty first
    | cons next pieces => simp [joinWith, first] at empty

/-- The text ends with its last piece. -/
theorem suffix_joinWith_concat (separator : Text) (pieces : List Text) (last : Text) :
    last <:+ joinWith separator (pieces ++ [last]) := by
  induction pieces with
  | nil => exact List.suffix_refl last
  | cons piece pieces ih =>
    rw [List.cons_append, joinWith_cons_of_ne_nil _ _ (by simp)]
    exact ih.trans (List.suffix_append _ _)

theorem append_joinWith_cons (separator s piece : Text) (pieces : List Text) :
    s ++ joinWith separator (piece :: pieces) = joinWith separator ((s ++ piece) :: pieces) := by
  cases pieces <;> simp [joinWith]

theorem not_mem_joinWith {c : Char} {separator : Text} {pieces : List Text}
    (absent : c ∉ separator) (clean : ∀ piece ∈ pieces, c ∉ piece) :
    c ∉ joinWith separator pieces := by
  induction pieces with
  | nil => simp [joinWith]
  | cons piece pieces ih =>
    simp only [List.mem_cons, forall_eq_or_imp] at clean
    by_cases last : pieces = []
    · subst last
      exact clean.1
    · rw [joinWith_cons_of_ne_nil _ _ last]
      simp [absent, clean.1, ih clean.2]

theorem splitOn_joinWith {separator : Char} {pieces : List Text} (some_piece : pieces ≠ [])
    (clean : ∀ piece ∈ pieces, separator ∉ piece) :
    splitOn separator (joinWith [separator] pieces) = pieces := by
  induction pieces with
  | nil => exact absurd rfl some_piece
  | cons piece pieces ih =>
    simp only [List.mem_cons, forall_eq_or_imp] at clean
    by_cases last : pieces = []
    · subst last
      exact splitOn_eq_singleton clean.1
    · rw [joinWith_cons_of_ne_nil _ _ last, List.append_assoc, List.singleton_append,
        splitOn_append_cons clean.1, ih last clean.2]

theorem joinWith_splitOn (separator : Char) (s : Text) :
    joinWith [separator] (splitOn separator s) = s := by
  induction s with
  | nil => rfl
  | cons c s ih =>
    by_cases same : c = separator
    · rw [same, splitOn_cons_self, joinWith_cons_of_ne_nil _ _ (splitOn_ne_nil separator s), ih]
      rfl
    · obtain ⟨piece, pieces, cut⟩ := List.exists_cons_of_ne_nil (splitOn_ne_nil separator s)
      rw [splitOn, if_neg same, cut]
      dsimp only
      rw [cut] at ih
      exact (append_joinWith_cons [separator] [c] piece pieces).symm.trans (congrArg (c :: ·) ih)

theorem length_splitOn (separator : Char) (s : Text) :
    (splitOn separator s).length = s.count separator + 1 := by
  induction s with
  | nil => rfl
  | cons c s ih =>
    by_cases same : c = separator
    · simp [same, splitOn_cons_self, ih]
    · obtain ⟨piece, pieces, cut⟩ := List.exists_cons_of_ne_nil (splitOn_ne_nil separator s)
      rw [cut] at ih
      simpa [splitOn, same, cut, List.count_cons] using ih

theorem splitOn_replicate_append (separator : Char) (count : Nat) (s : Text) :
    splitOn separator (List.replicate count separator ++ s) =
      List.replicate count [] ++ splitOn separator s := by
  induction count with
  | zero => rfl
  | succ count ih => simp [List.replicate_succ, splitOn_cons_self, ih]

/-! ## Lines -/

theorem ne_of_not_mem {line : Text} (absent : '\n' ∉ line) :
    ∀ c ∈ line, decide (c ≠ '\n') = true := by
  intro c member
  exact decide_eq_true (ne_of_mem_of_not_mem member absent)

theorem lines_cons {c : Char} (inside : isLineBreak c = false) (s : Text) :
    lines (c :: s) = match lines s with
      | line :: others => (c :: line) :: others
      | [] => [[c]] := by
  rw [lines]
  · exact if_neg (by simp [inside])
  · rintro rest rfl
    cases inside

theorem lines_eq_singleton {line : Text} (filled : line ≠ [])
    (inside : ∀ c ∈ line, isLineBreak c = false) : lines line = [line] := by
  induction line with
  | nil => exact absurd rfl filled
  | cons c line ih =>
    obtain ⟨here, others⟩ := List.forall_mem_cons.mp inside
    rw [lines_cons here]
    by_cases last : line = []
    · subst last
      rfl
    · rw [ih last others]

theorem lines_eq_nil {s : Text} (none : lines s = []) : s = [] := by
  unfold lines at none
  split at none
  · rfl
  · cases none
  · -- a character is on some line
    split at none
    · cases none
    · split at none <;> cases none

/-- A line break behind a text ends its last line; where nothing stands in that line, an empty one is
left. -/
theorem lines_append_line (s t : Text) :
    lines (s ++ '\n' :: t) = lines s ++ lines t ∨
      lines (s ++ '\n' :: t) = lines s ++ [] :: lines t := by
  have ended : lines ('\n' :: t) = [] :: lines t := by simp [lines, isLineBreak, inRanges]
  fun_induction lines s with
  | case1 => exact Or.inr ended
  | case2 rest ih =>
    rw [List.cons_append, List.cons_append, lines]
    exact ih.imp (congrArg ([] :: ·)) (congrArg ([] :: ·))
  | case3 c rest apart ends ih =>
    by_cases returned : c = '\r' ∧ rest = []
    · -- the carriage return takes the line feed with it
      obtain ⟨rfl, rfl⟩ := returned
      exact Or.inl rfl
    · have onward : lines (c :: (rest ++ '\n' :: t)) = [] :: lines (rest ++ '\n' :: t) := by
        rw [lines, if_pos ends]
        rintro more rfl begins
        cases rest with
        | nil => exact returned ⟨rfl, rfl⟩
        | cons d rest =>
          cases begins
          exact apart rest rfl rfl
      rw [List.cons_append, onward]
      exact ih.imp (congrArg ([] :: ·)) (congrArg ([] :: ·))
  | case4 c rest apart kept line others cut ih =>
    rw [List.cons_append, lines_cons (by simpa using kept)]
    rw [cut] at ih
    rcases ih with whole | whole
    · exact Or.inl (by rw [whole]; rfl)
    · exact Or.inr (by rw [whole]; rfl)
  | case5 c rest apart kept cut ih =>
    rw [List.cons_append, lines_cons (by simpa using kept)]
    have nothing : rest = [] := lines_eq_nil cut
    rw [nothing, List.nil_append, ended]
    exact Or.inl rfl

/-- A line is made of characters of the text that break no line. -/
theorem chars_of_mem_lines {s line : Text} (member : line ∈ lines s) :
    ∀ c ∈ line, c ∈ s ∧ isLineBreak c = false := by
  fun_induction lines s generalizing line with
  | case1 => cases member
  | case2 rest ih =>
    intro c inside
    rcases List.mem_cons.mp member with rfl | later
    · cases inside
    · exact (ih later c inside).imp_left fun below => by simp [below]
  | case3 d rest _ ends ih =>
    intro c inside
    rcases List.mem_cons.mp member with rfl | later
    · cases inside
    · exact (ih later c inside).imp_left (List.mem_cons_of_mem d)
  | case4 d rest _ kept first others cut ih =>
    rw [cut] at ih
    intro c inside
    rcases List.mem_cons.mp member with rfl | later
    · rcases List.mem_cons.mp inside with rfl | tail
      · exact ⟨List.mem_cons_self, by simpa using kept⟩
      · exact (ih List.mem_cons_self c tail).imp_left (List.mem_cons_of_mem d)
    · exact (ih (List.mem_cons_of_mem first later) c inside).imp_left (List.mem_cons_of_mem d)
  | case5 d rest _ kept cut ih =>
    intro c inside
    cases List.mem_singleton.mp member
    cases List.mem_singleton.mp inside
    exact ⟨List.mem_cons_self, by simpa using kept⟩

theorem occursIn_iff {part s : Text} : occursIn part s = true ↔ part <:+: s := by
  induction s with
  | nil => simp [occursIn]
  | cons c rest ih =>
    rw [occursIn, Bool.or_eq_true, List.isPrefixOf_iff_prefix, ih, List.infix_cons_iff]

end CHeader.Text
