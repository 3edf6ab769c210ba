import CHeader.Console.Renderer
import CHeader.Proofs.Console.Markup
import CHeader.Proofs.FirstError

/-!
# What a renderer promises

Nothing more is assumed of a renderer than what is said of markup wherever it is described: text that
is escaped is not markup, nor is text without brackets and backslashes, and a closing tag needs
something open that it closes. On text that is not markup a renderer does not fail. The renderer at
hand keeps these promises.
-/
namespace CHeader.Console

open Text

/-- A text that holds nothing of which markup is made. -/
structure Plain (s : Text) : Prop where
  unopened : '[' ∉ s
  unescaping : '\\' ∉ s

namespace Plain

variable {s t : Text}

instance : Decidable (Plain s) :=
  decidable_of_iff ('[' ∉ s ∧ '\\' ∉ s)
    ⟨fun ⟨unopened, unescaping⟩ => ⟨unopened, unescaping⟩,
      fun plain => ⟨plain.unopened, plain.unescaping⟩⟩

theorem append (first : Plain s) (second : Plain t) : Plain (s ++ t) := by
  refine ⟨?_, ?_⟩ <;> rw [List.mem_append, not_or]
  · exact ⟨first.unopened, second.unopened⟩
  · exact ⟨first.unescaping, second.unescaping⟩

end Plain

namespace Renderer

variable {ε : Type} {r : Renderer ε}

/-- Markup without tags. -/
inductive Literal (r : Renderer ε) : Text → Prop where
  | plain {s : Text} (plain : Plain s) : Literal r s
  | escaped (s : Text) : Literal r (r.escape s)
  | behind {lead s : Text} (plain : Plain lead) (literal : Literal r s) : Literal r (lead ++ s)

/-- What is assumed of a renderer, with a screen that takes every character. -/
structure Lawful (r : Renderer ε) : Prop where
  /-- Text that is not markup can be printed. -/
  print_literal {s : Text} (layout : Layout) (literal : r.Literal s) :
    ∃ text, r.print layout [s] = .ok text
  /-- It can be printed in bold, too. -/
  print_bold {s : Text} (layout : Layout) (literal : r.Literal s) :
    ∃ text, r.print layout [bold s] = .ok text
  /-- A table of such texts can be drawn. -/
  table_literal {grid : Grid} (screen : Nat) (title : r.Literal grid.title)
    (headings : ∀ heading ∈ grid.headings, r.Literal heading)
    (rows : ∀ row ∈ grid.rows, ∀ cell ∈ row, r.Literal cell) :
    ∃ text, r.table screen grid = .ok text
  /-- If bold text holds a closing tag, either that one or the one at its end has nothing to close. -/
  print_mismatched {before name after : Text} (layout : Layout) (first : Plain before)
    (named : Plain name) (single : ']' ∉ name) (last : Plain after) :
    ∃ cause, r.print layout [bold (before ++ ('[' :: '/' :: name ++ ']' :: after))] = .error cause

end Renderer

/-! ## Bold text -/

namespace Markup

variable {markup : Text}

theorem tags_bold (markup : Text) :
    tags (bold markup) = ⟨"bold".toList, none⟩ :: (tags markup ++
      if lastBackslashes markup % 2 = 1 then [] else [⟨"/bold".toList, none⟩]) := by
  have opening : IsTagBody "bold".toList := ⟨by decide, by decide, by decide⟩
  have closing : IsTagBody "/bold".toList := ⟨by decide, by decide, by decide⟩
  have found : escapedTag? (bold markup) =
      some (0, "bold".toList, markup ++ ('[' :: "/bold".toList ++ [']'])) :=
    escapedTag?_eq_some_iff.mpr ⟨List.append_assoc "[bold]".toList markup _, opening⟩
  have first : Tag.ofText "bold".toList = ⟨"bold".toList, none⟩ := by decide
  have last : Tag.ofText "/bold".toList = ⟨"/bold".toList, none⟩ := by decide
  rw [tags_of_escapedTag? found, tags_append_tag closing, first, last]
  rfl

theorem normalForm_bold : Style.normalForm "bold".toList = "bold".toList := by decide +kernel

theorem openAfter?_bold (active : List Text) :
    openAfter? active ⟨"bold".toList, none⟩ = some ("bold".toList :: active) := by
  rw [openAfter?, if_neg (by decide), normalForm_bold]

/-- The end of bold text closes it, if it is still open. -/
theorem openAfter?_endBold (active : List Text) :
    openAfter? active ⟨"/bold".toList, none⟩ =
      if "bold".toList ∈ active then some (active.erase "bold".toList) else none := by
  have name : trim ("/bold".toList.drop 1) = "bold".toList := by decide
  rw [openAfter?_closing (by decide) name (by decide), normalForm_bold]

/-- Bold text can be shown if and only if each closing tag in it finds an open one and it is still
bold in the end, or a backslash at its end hides that end. -/
theorem wellClosed_bold_iff : WellClosed (bold markup) ↔
    ∃ active, leftOpen? ["bold".toList] (tags markup) = some active ∧
      ("bold".toList ∈ active ∨ lastBackslashes markup % 2 = 1) := by
  rw [WellClosed, tags_bold, leftOpen?, List.foldlM_cons, openAfter?_bold,
    Option.bind_eq_bind, Option.bind_some, List.foldlM_append, ← leftOpen?]
  cases leftOpen? ["bold".toList] (tags markup) with
  | none => simp
  | some active =>
    split
    next odd => simp [odd] -- the last backslash hides the closing tag
    next even =>
      rw [Option.bind_eq_bind, Option.bind_some, List.foldlM_cons, openAfter?_endBold]
      split
      next stays => exact iff_of_true ⟨_, rfl⟩ ⟨active, rfl, Or.inl stays⟩
      next gone =>
        apply iff_of_false
        · rintro ⟨left, closed⟩
          cases closed
        · rintro ⟨active', same, stays | odd⟩
          · cases same
            exact gone stays
          · exact even odd

/-- Text without tags stays bold to its end. -/
theorem wellClosed_bold_of_tags (none : tags markup = []) : WellClosed (bold markup) := by
  rw [wellClosed_bold_iff, none]
  exact ⟨["bold".toList], rfl, Or.inl List.mem_cons_self⟩

/-- With one tag open, a closing tag leaves none. -/
theorem openAfter?_singleton {tag : Tag} {name : Text} {left : List Text}
    (closing : tag.name.head? = some '/') (closed : openAfter? [name] tag = some left) :
    left = [] := by
  rw [openAfter?, if_pos closing, close] at closed
  split at closed
  · cases closed
    rfl
  · split at closed
    next found =>
      cases closed
      rw [List.mem_singleton.mp found, List.erase_cons_head]
    next => cases closed

theorem lastBackslashes_eq_zero {before after : Text} (unescaping : '\\' ∉ after) :
    lastBackslashes (before ++ ']' :: after) = 0 := by
  rw [lastBackslashes, List.reverse_append, List.reverse_cons, List.append_assoc]
  cases backwards : after.reverse with
  | nil => rfl
  | cons c rest =>
    have other : c ≠ '\\' := by
      rintro rfl
      exact unescaping (List.mem_reverse.mp (by rw [backwards]; exact List.mem_cons_self))
    simp [other]

theorem not_wellClosed_bold {before name after : Text} (first : Plain before) (named : Plain name)
    (single : ']' ∉ name) (last : Plain after) :
    ¬WellClosed (bold (before ++ ('[' :: '/' :: name ++ ']' :: after))) := by
  have body : IsTagBody ('/' :: name) :=
    ⟨rfl, by simp [named.unopened], by simp [single]⟩
  have found : escapedTag? ('[' :: '/' :: name ++ ']' :: after) = some (0, '/' :: name, after) :=
    escapedTag?_eq_some_iff.mpr ⟨rfl, body⟩
  have only : tags (before ++ ('[' :: '/' :: name ++ ']' :: after)) =
      [Tag.ofText ('/' :: name)] := by
    rw [tags_append_of_plain first.unopened first.unescaping, tags_of_escapedTag? found,
      tags_eq_nil last.unopened]
    rfl
  have closing : (Tag.ofText ('/' :: name)).name.head? = some '/' := by
    rw [Tag.ofText]
    split <;> rfl
  have visible : lastBackslashes (before ++ ('[' :: '/' :: name ++ ']' :: after)) = 0 := by
    rw [← List.append_assoc]
    exact lastBackslashes_eq_zero last.unescaping
  -- the tag in between takes the bold with it, or finds nothing to close itself
  rw [wellClosed_bold_iff, only, visible]
  rintro ⟨active, closed, stays | odd⟩
  · obtain ⟨left, worked, same⟩ := Option.bind_eq_some_iff.mp closed
    cases same
    rw [openAfter?_singleton closing worked] at stays
    cases stays
  · cases odd

end Markup

/-! ## The renderer at hand -/

namespace Renderer

variable {markup : Text} {layout : Layout}

theorem Literal.tags (literal : standard.Literal markup) : Markup.tags markup = [] := by
  induction literal with
  | plain plain => exact Markup.tags_eq_nil plain.unopened
  | escaped s => exact Markup.tags_escape s
  | behind plain literal ih =>
    rw [Markup.tags_append_of_plain plain.unopened plain.unescaping, ih]

theorem Literal.render (literal : standard.Literal markup) :
    ∃ text, Markup.render markup = .ok text :=
  Markup.render_ok_iff.mpr (Markup.wellClosed_of_tags literal.tags)

theorem standard_print_ok_iff :
    (∃ text, standard.print layout [markup] = .ok text) ↔ Markup.WellClosed markup := by
  rw [← Markup.render_ok_iff]
  simp only [standard, List.mapM_cons, List.mapM_nil]
  cases Markup.render markup <;> simp [bind, Except.bind, pure, Except.pure]

theorem standard_lawful : standard.Lawful where
  print_literal layout literal :=
    standard_print_ok_iff.mpr (Markup.wellClosed_of_tags literal.tags)
  print_bold layout literal :=
    standard_print_ok_iff.mpr (Markup.wellClosed_bold_of_tags literal.tags)
  table_literal {grid} screen title headings rows := by
    obtain ⟨title', first⟩ := title.render
    obtain ⟨headings', second⟩ := mapM_eq_ok fun heading member => (headings heading member).render
    obtain ⟨rows', third⟩ := mapM_eq_ok fun row member =>
      mapM_eq_ok fun cell inside => (rows row member cell inside).render
    -- once its texts are rendered a table is drawn without fail
    refine ⟨unlines (Grid.draw screen ⟨title', headings', rows'⟩), ?_⟩
    simp only [standard, Grid.rendered, first, second, third]
    rfl
  print_mismatched {before name after} layout first named single last := by
    cases printed : standard.print layout
        [bold (before ++ ('[' :: '/' :: name ++ ']' :: after))] with
    | ok text =>
      exact absurd (standard_print_ok_iff.mp ⟨text, printed⟩)
        (Markup.not_wellClosed_bold first named single last)
    | error cause => exact ⟨cause, rfl⟩

end Renderer

end CHeader.Console
