import CHeader.Proofs.Text.Directive
import CHeader.Proofs.Text.Flat
import Mathlib.Data.List.Chain

/-!
# Flat text is a normal form

Each pass over a text keeps what it leaves apart where it drops something: no pass makes a comment. So
flat text has none, and its words are separated by one space each. Texts of that form are what
collapsing and stripping comments leave alone.
-/
namespace CHeader.Text

variable {s t : Text} {c : Char}

/-! ## No pass makes a comment -/

theorem following_apart (lines : List Text) : ∀ d ∈ (following lines).head?, isSpace d = true := by
  intro d first
  cases lines with
  | nil => cases first
  | cons line lines =>
    rw [following_cons, Option.mem_def, List.head?_cons, Option.some.injEq] at first
    rw [← first]
    rfl

/-- A line that goes leaves the line breaks around it. -/
theorem thinned_following (joined : Bool) (lines : List Text) :
    Thinned (following lines) (following (dropDirectives joined lines)) := by
  fun_induction dropDirectives joined lines with
  | case1 => exact .nil
  | case2 line rest ih =>
    rw [following_cons]
    exact ih.dropAll ('\n' :: line) (following_apart _)
  | case3 line rest opens ih =>
    rw [following_cons, following_cons]
    exact .keep '\n' (ih.dropAll line (following_apart _))
  | case4 line rest plain ih =>
    rw [following_cons, following_cons]
    exact .keep '\n' (ih.prepend line)

theorem hasComment_of_stripDirectives (has : HasComment (stripDirectives s)) : HasComment s := by
  have some_line := splitOn_ne_nil '\n' s
  have thinned := thinned_following false (splitOn '\n' s)
  rw [← cons_joinWith some_line, ← cons_joinWith (dropDirectives_ne_nil some_line),
    ← stripDirectives_lines, joinWith_splitOn] at thinned
  -- the line break in front belongs to no comment
  have whole := thinned.hasComment (has.cons '\n')
  exact (hasComment_cons_iff.mp whole).resolve_right (by simp)

theorem thinned_squeeze (s : Text) : Thinned s (squeeze s) := by
  fun_induction squeeze s with
  | case1 => exact .nil
  | case2 c rest space more ih =>
    -- the rest of the run is left as one space
    obtain ⟨d, first, blank⟩ := Option.any_eq_true _ _ |>.mp more
    obtain ⟨tail, rfl⟩ := List.head?_eq_some_iff.mp first
    rw [squeeze_blank blank] at ih ⊢
    exact ih.dropAll [c] fun e head => by cases head; rfl
  | case3 c rest space last ih =>
    exact (Thinned.pad rfl ih).dropAll [c] fun e head => by cases head; rfl
  | case4 c rest solid ih => exact .keep c ih

theorem hasComment_of_collapse (has : HasComment (collapse s)) : HasComment s := by
  rw [collapse_eq] at has
  exact (thinned_squeeze s).hasComment (has.of_infix (infix_trim _))

/-! ## Collapsed texts -/

/-- No blank space but single spaces, and those stand inside. -/
structure IsCollapsed (s : Text) : Prop where
  spaces : ∀ c ∈ s, isSpace c = true → c = ' '
  single : s.IsChain fun c d => isSpace c = true → isSpace d = false
  front : ∀ c ∈ s.head?, isSpace c = false
  back : ∀ c ∈ s.getLast?, isSpace c = false

theorem eq_space_of_mem_squeeze (member : c ∈ squeeze s) (blank : isSpace c = true) : c = ' ' := by
  fun_induction squeeze s with
  | case1 => cases member
  | case2 d rest space more ih => exact ih member
  | case3 d rest space last ih => exact (List.mem_cons.mp member).elim id ih
  | case4 d rest solid ih =>
    rcases List.mem_cons.mp member with rfl | later
    · exact absurd blank solid
    · exact ih later

theorem isChain_squeeze (s : Text) :
    (squeeze s).IsChain fun c d => isSpace c = true → isSpace d = false := by
  fun_induction squeeze s with
  | case1 => exact .nil
  | case2 c rest space more ih => exact ih
  | case3 c rest space last ih =>
    -- the run ends here: the next character is not blank, and squeezing leaves it
    rw [List.isChain_cons]
    refine ⟨fun d first _ => ?_, ih⟩
    cases rest with
    | nil => cases first
    | cons e rest =>
      have solid : isSpace e = false := by simpa using last
      rw [squeeze_cons solid] at first
      cases first
      exact solid
  | case4 c rest solid ih =>
    rw [List.isChain_cons]
    exact ⟨fun d first blank => absurd blank solid, ih⟩

theorem isCollapsed_collapse (s : Text) : IsCollapsed (collapse s) := by
  rw [collapse_eq]
  constructor
  case spaces => exact fun c member => eq_space_of_mem_squeeze ((infix_trim _).subset member)
  case single => exact List.IsChain.infix (isChain_squeeze s) (infix_trim _)
  case front =>
    intro c first
    obtain ⟨d, head, solid⟩ := starts_trim (List.ne_nil_of_mem (List.mem_of_mem_head? first))
    cases Option.some.inj (first.symm.trans head)
    exact solid
  case back =>
    intro c last
    obtain ⟨d, tail, solid⟩ := ends_trim (List.ne_nil_of_mem (List.mem_of_getLast? last))
    cases Option.some.inj (last.symm.trans tail)
    exact solid

theorem squeeze_eq_self (spaces : ∀ c ∈ s, isSpace c = true → c = ' ')
    (single : s.IsChain fun c d => isSpace c = true → isSpace d = false) : squeeze s = s := by
  induction s with
  | nil => rfl
  | cons c s ih =>
    obtain ⟨here, others⟩ := List.forall_mem_cons.mp spaces
    obtain ⟨next, later⟩ := List.isChain_cons.mp single
    by_cases blank : isSpace c = true
    · have last : ¬(s.head?.any isSpace = true) := by
        intro more
        obtain ⟨d, first, space⟩ := Option.any_eq_true _ _ |>.mp more
        rw [next d first blank] at space
        cases space
      rw [squeeze_cons_blank blank, if_neg last, ih others later, here blank]
    · rw [squeeze_cons (by simpa using blank), ih others later]

theorem IsCollapsed.collapse (collapsed : IsCollapsed s) : collapse s = s := by
  rw [collapse_eq, squeeze_eq_self collapsed.spaces collapsed.single]
  cases s with
  | nil => rfl
  | cons c s =>
    refine trim_eq_self (starts_cons (collapsed.front c rfl) s) ?_
    have last := List.getLast?_eq_some_getLast (List.cons_ne_nil c s)
    exact ⟨_, last, collapsed.back _ last⟩

/-- Stripping comments leaves none, and none come back when directives are stripped and blank space is
collapsed. So flat text is what these passes leave alone: it has no comments, and no blank space but
single spaces inside. -/
theorem flatten_normal (s : Text) :
    ¬HasComment (stripComments s) ∧ stripComments (stripComments s) = stripComments s ∧
      ¬HasComment (stripDirectives (stripComments s)) ∧ ¬HasComment (flatten s) ∧
      stripComments (flatten s) = flatten s ∧ collapse (flatten s) = flatten s ∧
      IsCollapsed (flatten s) := by
  have stripped := not_hasComment_stripComments s
  have undirected : ¬HasComment (stripDirectives (stripComments s)) := fun has =>
    stripped (hasComment_of_stripDirectives has)
  have flat : ¬HasComment (flatten s) := fun has => undirected (hasComment_of_collapse has)
  have collapsed : IsCollapsed (flatten s) := isCollapsed_collapse _
  exact ⟨stripped, stripComments_eq_self stripped, undirected, flat, stripComments_eq_self flat,
    collapsed.collapse, collapsed⟩

/-- Comments and a directive between the signs of a comment, and a block that is not closed. -/
example : flatten "/ /*a*/ / b /*\n#c\n* //d\n/\n".toList = "/ / b /* * /".toList := by cbv

end CHeader.Text
