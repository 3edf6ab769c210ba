import CHeader.Console.Display
import CHeader.Proofs.Console.Renderer

/-!
# What can be shown

Escaped text is not markup, so graphs can always be shown, whatever the headers are called, and a
list of headers can be shown if its title can, whatever headers it lists. The title is not escaped: a
header that is named in it can break it.
-/
namespace CHeader.Console

open Text

variable {ε : Type} {screen : Nat}

/-! ## Parts -/

namespace Printout

variable {part : Except (DisplayError ε) Text} {parts : List (Except (DisplayError ε) Text)}
  {error : DisplayError ε}

/-- A printout fails with the error of the first part that cannot be shown. -/
theorem failure_ofParts_iff : (ofParts parts).failure = some error ↔ FirstError id parts error := by
  induction parts with
  | nil => simp [ofParts, not_firstError_nil]
  | cons part rest ih =>
    rw [firstError_cons, ← ih]
    cases part <;> simp [ofParts]

theorem failure_ofParts_eq_none (shown : ∀ part ∈ parts, ∃ text, part = .ok text) :
    (ofParts parts).failure = none := by
  rw [Option.eq_none_iff_forall_ne_some]
  intro error failed
  exact not_firstError_of_ok shown (failure_ofParts_iff.mp failed)

theorem failure_cons_of_ok (shown : ∃ text, part = .ok text) :
    (ofParts (part :: parts)).failure = (ofParts parts).failure := by
  obtain ⟨text, rfl⟩ := shown
  rfl

/-- Where all other parts can be shown, it is the first one that decides. -/
theorem failure_cons_iff (others : ∀ part ∈ parts, ∃ text, part = .ok text) :
    (ofParts (part :: parts)).failure = some error ↔ part = .error error := by
  cases part with
  | error cause => simp [ofParts]
  | ok text =>
    rw [failure_cons_of_ok ⟨text, rfl⟩, failure_ofParts_eq_none others]
    simp

end Printout

/-! ## Markup without tags -/

namespace Renderer

variable {r : Renderer ε} {layout : Layout} {markup : Text}

theorem shown_eq_error_iff {error : DisplayError ε} : r.shown layout markup = .error error ↔
    ∃ cause, error = .markup cause ∧ r.print layout [markup] = .error cause := by
  rw [shown]
  cases r.print layout [markup] <;> simp [Except.mapError, eq_comm]

theorem shown_ok_iff :
    (∃ text, r.shown layout markup = .ok text) ↔ ∃ text, r.print layout [markup] = .ok text := by
  rw [shown]
  cases r.print layout [markup] <;> simp [Except.mapError]

theorem Lawful.shown_literal (lawful : r.Lawful) (literal : r.Literal markup) :
    ∃ text, r.shown layout markup = .ok text :=
  shown_ok_iff.mpr (lawful.print_literal layout literal)

theorem Lawful.shown_bold (lawful : r.Lawful) (literal : r.Literal markup) :
    ∃ text, r.shown layout (bold markup) = .ok text :=
  shown_ok_iff.mpr (lawful.print_bold layout literal)

end Renderer

/-! ## Lists and graphs -/

theorem plain_digitsOf (number : Nat) : Plain (Decimal.digitsOf number) := by
  constructor <;>
  · intro member
    have digit := Nat.isDigit_of_mem_toDigits (by decide) (by decide) member
    cases digit

theorem plain_ordinal (number : Nat) : Plain (ordinal number) := by
  apply Plain.append _ (plain_digitsOf number)
  constructor <;>
  · intro member
    cases List.eq_of_mem_replicate member

theorem plain_dependenciesOf : Plain "Dependencies of ".toList := by decide

namespace Renderer

variable {r : Renderer ε}

theorem Lawful.listed (lawful : r.Lawful) (path : Text) (number : Nat) :
    ∃ text, r.shown .unwrapped (ordinal number ++ ['.', ' '] ++ r.escape path) = .ok text :=
  lawful.shown_literal
    (.behind (Plain.append (plain_ordinal number) (by decide)) (.escaped path))

/-- A list fails only at its title. -/
theorem Lawful.failure_showPaths_iff (lawful : r.Lawful) {title : Text} {paths : List Text}
    {error : DisplayError ε} :
    (r.showPaths screen title paths).failure = some error ↔
      ∃ cause, error = .markup cause ∧ r.print (.wrapped screen) [bold title] = .error cause := by
  rw [← shown_eq_error_iff]
  apply Printout.failure_cons_iff
  intro part member
  obtain ⟨⟨path, number⟩, -, rfl⟩ := List.mem_map.mp member
  exact lawful.listed path number

theorem Lawful.failure_showPaths_eq_none_iff (lawful : r.Lawful) {title : Text} {paths : List Text} :
    (r.showPaths screen title paths).failure = none ↔
      ∃ text, r.print (.wrapped screen) [bold title] = .ok text := by
  rw [Option.eq_none_iff_forall_ne_some]
  simp only [Ne, lawful.failure_showPaths_iff]
  cases r.print (.wrapped screen) [bold title] <;> simp

theorem Lawful.failure_showGraph (lawful : r.Lawful) (graph : Graph) :
    (r.showGraph graph).failure = none := by
  apply Printout.failure_ofParts_eq_none
  intro part member
  obtain ⟨⟨node, dependencies⟩, -, inside⟩ := List.mem_flatMap.mp member
  rcases List.mem_cons.mp inside with rfl | later
  · exact lawful.shown_bold (.escaped node)
  · obtain ⟨dependency, -, rfl⟩ := List.mem_map.mp later
    exact lawful.shown_literal (.behind (by decide) (.escaped dependency))

end Renderer

/-- Whatever renderer shows them, the dependencies of a header can be listed if and only if the title
can be printed in bold, with the name of the header in it as it is, and the failure is that of the
title. So they can be listed if the name is not markup, and cannot if a closing tag is the only tag in
it. What is listed, and all of a graph, can always be shown. -/
theorem showPaths_dependencies {r : Renderer ε} (lawful : r.Lawful) (screen : Nat) (header : Text)
    (paths : List Text) (graph : Graph) :
    (∀ error, (r.showPaths screen ("Dependencies of ".toList ++ header) paths).failure = some error ↔
      ∃ cause, error = .markup cause ∧
        r.print (.wrapped screen) [bold ("Dependencies of ".toList ++ header)] = .error cause) ∧
    (r.Literal header →
      (r.showPaths screen ("Dependencies of ".toList ++ header) paths).failure = none) ∧
    (∀ before name after, Plain before → Plain name → ']' ∉ name → Plain after →
      header = before ++ ('[' :: '/' :: name ++ ']' :: after) →
      (r.showPaths screen ("Dependencies of ".toList ++ header) paths).failure ≠ none) ∧
    (r.showGraph graph).failure = none := by
  refine ⟨fun error => lawful.failure_showPaths_iff, fun literal => ?_, ?_,
    lawful.failure_showGraph graph⟩
  · rw [lawful.failure_showPaths_eq_none_iff]
    exact lawful.print_bold _ (.behind plain_dependenciesOf literal)
  · rintro before name after first named single last rfl
    -- in the title, too, nothing but plain text stands in front of the tag
    rw [Ne, lawful.failure_showPaths_eq_none_iff, ← List.append_assoc]
    obtain ⟨cause, failed⟩ := lawful.print_mismatched (.wrapped screen)
      (plain_dependenciesOf.append first) named single last
    rintro ⟨text, printed⟩
    rw [failed] at printed
    cases printed

/-- A name without brackets, and one that closes the bold text. -/
theorem showPaths_dependencies_bracketed :
    (Renderer.standard.showPaths 80 ("Dependencies of ".toList ++ "x.h".toList)
        ["[/].h".toList]).failure = none ∧
      (Renderer.standard.showPaths 80 ("Dependencies of ".toList ++ "[/].h".toList) []).failure ≠
        none := by
  constructor
  · apply (showPaths_dependencies Renderer.standard_lawful 80 "x.h".toList _ []).2.1
    exact .plain (by decide)
  · apply (showPaths_dependencies Renderer.standard_lawful 80 "[/].h".toList [] []).2.2.1
      [] [] ".h".toList (by decide) (by decide) (by decide) (by decide) rfl

/-- The header closes the bold text, so that its end has nothing to close. -/
theorem showPaths_closing :
    (showPaths 80 ("Dependencies of ".toList ++ "[/].h".toList) []).failure =
      some (.markup (.unmatched ⟨"/bold".toList, none⟩ 27)) := by
  decide +kernel

end CHeader.Console
