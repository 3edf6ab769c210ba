import CHeader.Proofs.Text.Pieces
import CHeader.Text.Directive
import Mathlib.Data.List.TakeWhile

/-!
# Directives line by line

Directives are stripped line by line: a line that opens a directive goes, and so does every line that
a backslash joins to one that goes. `dropDirectives` says so, and `stripDirectives_lines` that nothing
else is done to a text. No line that is left opens a directive, so that stripping once is enough.
-/
namespace CHeader.Text

variable {s t line : Text} {c : Char}

/-! ## One line -/

/-- Does the line end in the sign that joins the next line to it? -/
def continues (line : Text) : Bool := line.getLast? == some '\\'

theorem afterDirective_of_not_mem (absent : '\n' ∉ s) : afterDirective s = [] := by
  fun_induction afterDirective s <;> simp_all

theorem afterDirective_append (absent : '\n' ∉ line) (rest : Text) :
    afterDirective (line ++ '\n' :: rest) =
      if continues line then afterDirective rest else '\n' :: rest := by
  induction line with
  | nil => rfl
  | cons c line ih =>
    simp only [List.mem_cons, not_or] at absent
    cases line with
    | nil =>
      by_cases joins : c = '\\'
      · subst joins
        rfl
      · rw [List.singleton_append, afterDirective, if_neg (Ne.symm absent.1)]
        · simp [afterDirective, continues, joins]
        · simp [joins]
    | cons d line =>
      have inside : d ≠ '\n' := by
        rintro rfl
        exact absent.2 List.mem_cons_self
      have same : continues (c :: d :: line) = continues (d :: line) := by
        simp [continues, List.getLast?_cons_cons]
      rw [same, ← ih absent.2, List.cons_append, afterDirective, if_neg (Ne.symm absent.1)]
      simp [inside]

theorem directive?_append_of_eq_none (plain : directive? line = none)
    (apart : (t.dropWhile isIndent).head? ≠ some '#') : directive? (line ++ t) = none := by
  unfold directive? at plain ⊢
  rw [List.dropWhile_append]
  split
  next after opened =>
    split at opened
    next => simp [opened] at apart
    next filled =>
      obtain ⟨first, rest, left⟩ : ∃ first rest, line.dropWhile isIndent = first :: rest :=
        List.exists_cons_of_ne_nil (by simpa using filled)
      rw [left, List.cons_append, List.cons.injEq] at opened
      rw [left, opened.1] at plain
      cases plain
  next => rfl

/-- A directive that a line begins goes on in the text after the line. -/
theorem directive?_append_of_isSome (opens : (directive? line).isSome) (t : Text) :
    ∃ tail, tail <:+ line ∧ continues tail = continues line ∧
      directive? (line ++ t) = some (afterDirective (tail ++ t)) := by
  unfold directive? at opens ⊢
  split at opens
  next tail opened =>
    have suffix := List.dropWhile_suffix (l := line) isIndent
    obtain ⟨indent, whole⟩ := suffix
    rw [opened] at whole
    refine ⟨tail, ⟨indent ++ ['#'], by simpa using whole⟩, ?_, ?_⟩
    · rw [← whole, continues, continues, List.getLast?_append]
      cases tail with
      | nil => rfl
      | cons d tail => simp [List.getLast?_cons]
    · simp [List.dropWhile_append, opened]
  next => cases opens

/-- The text from a place within a line on, without the directives on the lines that follow. -/
def stripLater (body : Text) : Text :=
  match body.dropWhile (· ≠ '\n') with
  | [] => body
  | lineBreak :: rest => body.takeWhile (· ≠ '\n') ++ lineBreak :: stripDirectives rest

theorem stripDirectives_eq (s : Text) :
    stripDirectives s = stripLater ((directive? s).getD s) := by
  rw [stripDirectives, stripLater]
  dsimp only
  split
  next left => simp only [left]
  next lineBreak rest left => simp only [left]

theorem stripLater_of_not_mem (absent : '\n' ∉ line) : stripLater line = line := by
  rw [stripLater, List.dropWhile_eq_nil_iff.mpr (ne_of_not_mem absent)]

theorem stripLater_append (absent : '\n' ∉ line) (rest : Text) :
    stripLater (line ++ '\n' :: rest) = line ++ '\n' :: stripDirectives rest := by
  have inside := ne_of_not_mem absent
  rw [stripLater, List.dropWhile_append_of_pos inside, List.takeWhile_append_of_pos inside]
  simp

/-! ## All lines -/

/-- Does the line begin with `#`, after spaces and tabs at most? -/
def opensDirective (line : Text) : Bool := (line.dropWhile isIndent).head? == some '#'

theorem isSome_directive? (line : Text) : (directive? line).isSome = opensDirective line := by
  unfold directive? opensDirective
  split
  next opened => simp [opened]
  next other =>
    cases left : line.dropWhile isIndent with
    | nil => rfl
    | cons d rest =>
      have differ : d ≠ '#' := by
        rintro rfl
        exact other rest left
      simp [differ]

theorem directive?_eq_none_of_plain (plain : opensDirective line = false) :
    directive? line = none := by
  rwa [← isSome_directive?, Option.isSome_eq_false_iff, Option.isNone_iff_eq_none] at plain

/-- The lines with one empty line in the place of each directive; `joined` says that the line before
the first one belongs to a directive and ends in a backslash. -/
def dropDirectives : (joined : Bool) → List Text → List Text
  | _, [] => []
  | true, line :: rest => dropDirectives (continues line) rest
  | false, line :: rest =>
    if opensDirective line then [] :: dropDirectives (continues line) rest
    else line :: dropDirectives false rest

/-- What stands behind a line: the lines that follow it, each after a line break. -/
def following (lines : List Text) : Text := lines.flatMap ('\n' :: ·)

theorem following_cons (line : Text) (lines : List Text) :
    following (line :: lines) = '\n' :: (line ++ following lines) := by
  simp [following]

theorem joinWith_cons_following (line : Text) (lines : List Text) :
    joinWith ['\n'] (line :: lines) = line ++ following lines := by
  induction lines generalizing line with
  | nil => simp [joinWith, following]
  | cons next lines ih =>
    rw [joinWith_cons_of_ne_nil _ _ (List.cons_ne_nil next lines), ih, following_cons]
    simp

theorem cons_joinWith {lines : List Text} (some_line : lines ≠ []) :
    '\n' :: joinWith ['\n'] lines = following lines := by
  obtain ⟨line, others, rfl⟩ := List.exists_cons_of_ne_nil some_line
  rw [joinWith_cons_following, following_cons]

/-- A line that opens no directive is left as it is, and so is the line break behind it. -/
theorem stripDirectives_plain (plain : opensDirective line = false) (absent : '\n' ∉ line)
    (rest : Text) :
    stripDirectives (line ++ '\n' :: rest) = line ++ '\n' :: stripDirectives rest := by
  have apart : (('\n' :: rest).dropWhile isIndent).head? ≠ some '#' := by
    simp [isIndent]
  rw [stripDirectives_eq, directive?_append_of_eq_none (directive?_eq_none_of_plain plain) apart,
    Option.getD_none, stripLater_append absent]

/-- What is left of a line and the lines behind it: behind a line break if the line stands on its own,
and if a directive reaches into the line. -/
structure Dropped (lines : List Text) : Prop where
  own {line : Text} (absent : '\n' ∉ line) :
    '\n' :: stripDirectives (line ++ following lines) =
      following (dropDirectives false (line :: lines))
  reached {line : Text} (absent : '\n' ∉ line) :
    stripLater (afterDirective (line ++ following lines)) =
      following (dropDirectives (continues line) lines)

/-- A directive that a line opens reaches as far as it would from a place behind its sign. -/
theorem Dropped.of_reached {lines : List Text}
    (reached : ∀ {line : Text}, '\n' ∉ line →
      stripLater (afterDirective (line ++ following lines)) =
        following (dropDirectives (continues line) lines))
    (plain : ∀ {line : Text}, opensDirective line = false → '\n' ∉ line →
      stripDirectives (line ++ following lines) = line ++ following (dropDirectives false lines)) :
    Dropped lines := by
  refine ⟨fun {line} absent => ?_, reached⟩
  rw [dropDirectives]
  cases opens : opensDirective line with
  | true =>
    obtain ⟨tail, suffix, same, goesOn⟩ := directive?_append_of_isSome
      ((isSome_directive? line).trans opens) (following lines)
    have inside : '\n' ∉ tail := fun member => absent (suffix.subset member)
    rw [stripDirectives_eq, goesOn, Option.getD_some, reached inside, same, if_pos rfl,
      following_cons, List.nil_append]
  | false => rw [if_neg Bool.false_ne_true, following_cons, plain opens absent]

theorem dropped_nil : Dropped [] := by
  apply Dropped.of_reached
  · intro line absent
    rw [following, List.flatMap_nil, List.append_nil, afterDirective_of_not_mem absent]
    cases continues line <;> rfl
  · intro line plain absent
    rw [following, List.flatMap_nil, List.append_nil, stripDirectives_eq,
      directive?_eq_none_of_plain plain, Option.getD_none, stripLater_of_not_mem absent]
    simp [dropDirectives, following]

theorem Dropped.cons {lines : List Text} (dropped : Dropped lines) {next : Text}
    (clean : '\n' ∉ next) : Dropped (next :: lines) := by
  apply Dropped.of_reached
  · intro line absent
    rw [following_cons, afterDirective_append absent]
    cases continues line with
    | true =>
      -- the directive goes on in the next line, and from there as it would if that line opened it
      rw [if_pos rfl, dropped.reached clean, dropDirectives]
    | false =>
      rw [if_neg Bool.false_ne_true, ← List.nil_append ('\n' :: _),
        stripLater_append List.not_mem_nil, List.nil_append, dropped.own clean]
  · intro line plain absent
    rw [following_cons, stripDirectives_plain plain absent, dropped.own clean]

theorem dropped {lines : List Text} (clean : ∀ line ∈ lines, '\n' ∉ line) : Dropped lines := by
  induction lines with
  | nil => exact dropped_nil
  | cons line lines ih =>
    obtain ⟨here, others⟩ := List.forall_mem_cons.mp clean
    exact (ih others).cons here

theorem dropDirectives_ne_nil {lines : List Text} (some_line : lines ≠ []) :
    dropDirectives false lines ≠ [] := by
  obtain ⟨line, others, rfl⟩ := List.exists_cons_of_ne_nil some_line
  rw [dropDirectives]
  split <;> exact List.cons_ne_nil _ _

/-- Stripping directives does to a text what dropping them does to its lines. -/
theorem stripDirectives_lines (s : Text) :
    stripDirectives s = joinWith ['\n'] (dropDirectives false (splitOn '\n' s)) := by
  obtain ⟨line, lines, cut⟩ := List.exists_cons_of_ne_nil (splitOn_ne_nil '\n' s)
  have clean : ∀ piece ∈ line :: lines, '\n' ∉ piece := by
    intro piece member
    exact not_mem_of_mem_splitOn (cut ▸ member)
  obtain ⟨here, others⟩ := List.forall_mem_cons.mp clean
  have stripped := (dropped others).own here
  rw [← joinWith_cons_following, ← cut, joinWith_splitOn,
    ← cons_joinWith (dropDirectives_ne_nil (splitOn_ne_nil '\n' s))] at stripped
  exact List.tail_eq_of_cons_eq stripped

theorem mem_dropDirectives {joined : Bool} {lines : List Text}
    (member : line ∈ dropDirectives joined lines) :
    line = [] ∨ line ∈ lines ∧ opensDirective line = false := by
  fun_induction dropDirectives joined lines with
  | case1 => cases member
  | case2 first rest ih =>
    exact (ih member).imp_right fun later => ⟨List.mem_cons_of_mem first later.1, later.2⟩
  | case3 first rest opens ih =>
    rcases List.mem_cons.mp member with empty | later
    · exact Or.inl empty
    · exact (ih later).imp_right fun later => ⟨List.mem_cons_of_mem first later.1, later.2⟩
  | case4 first rest plain ih =>
    rcases List.mem_cons.mp member with rfl | later
    · exact Or.inr ⟨List.mem_cons_self, by simpa using plain⟩
    · exact (ih later).imp_right fun later => ⟨List.mem_cons_of_mem first later.1, later.2⟩

theorem dropDirectives_eq_self {lines : List Text}
    (plain : ∀ line ∈ lines, opensDirective line = false) : dropDirectives false lines = lines := by
  induction lines with
  | nil => rfl
  | cons line lines ih =>
    obtain ⟨here, others⟩ := List.forall_mem_cons.mp plain
    rw [dropDirectives, here, if_neg Bool.false_ne_true, ih others]

/-- The lines of a stripped text are those that are left of its lines. -/
theorem splitOn_stripDirectives (s : Text) :
    splitOn '\n' (stripDirectives s) = dropDirectives false (splitOn '\n' s) := by
  rw [stripDirectives_lines]
  apply splitOn_joinWith (dropDirectives_ne_nil (splitOn_ne_nil '\n' s))
  intro line member
  rcases mem_dropDirectives member with rfl | ⟨inside, -⟩
  · exact List.not_mem_nil
  · exact not_mem_of_mem_splitOn inside

/-- Stripping directives drops lines: those that open a directive, and those joined to a line that
goes. No line that is left opens a directive, and stripping again changes nothing. -/
theorem stripDirectives_scan (s : Text) :
    stripDirectives s = joinWith ['\n'] (dropDirectives false (splitOn '\n' s)) ∧
      (∀ line ∈ splitOn '\n' (stripDirectives s), opensDirective line = false) ∧
      stripDirectives (stripDirectives s) = stripDirectives s := by
  have plain : ∀ line ∈ splitOn '\n' (stripDirectives s), opensDirective line = false := by
    intro line member
    rw [splitOn_stripDirectives] at member
    rcases mem_dropDirectives member with rfl | ⟨-, plain⟩
    · rfl
    · exact plain
  refine ⟨stripDirectives_lines s, plain, ?_⟩
  rw [stripDirectives_lines (stripDirectives s), dropDirectives_eq_self plain, joinWith_splitOn]

/-- A directive over two lines, one that ends the text in a backslash, and a sign behind code. -/
example : stripDirectives "int a; # b\n \t#define F \\\n# c\\ \nint d;\n#e \\\n".toList =
    "int a; # b\n\nint d;\n".toList := by cbv

end CHeader.Text
