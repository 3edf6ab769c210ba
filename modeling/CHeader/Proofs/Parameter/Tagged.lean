import CHeader.Proofs.Parameter.Written

/-!
# Bare tagged types

A tag word with a tag behind it is a type without a name, as long as nothing stands in front of the tag
word. The text in front of the last word is compared with the tag words as a whole, so that behind a
qualifier the tag is read as the name of a parameter.
-/
namespace CHeader.Parameter

open Text

/-- Tag words are single words. -/
theorem phrase_concat_tag {front : List Word} {keyword : Word} (isTag : keyword.text ∈ tagWords) :
    phrase (front ++ [keyword]) ∈ tagWords ↔ front = [] := by
  constructor
  · intro member
    by_contra more
    have single : ∀ word ∈ tagWords, ' ' ∉ word := by decide
    apply single _ member
    rw [phrase_concat more]
    simp
  · rintro rfl
    exact isTag

/-- A tagged type is unnamed as a whole exactly if it starts with its tag word, or if the tag is a word
that names nothing. Otherwise its tag is taken for a name, and the words in front of it for a type. -/
theorem parse_tagged (front : List Word) (keyword tag : Word) (isTag : keyword.text ∈ tagWords) :
    (parse (phrase (front ++ [keyword, tag])) = ⟨phrase (front ++ [keyword, tag]), none⟩ ↔
      front = [] ∨ tag.text ∈ typeWords) ∧
    (¬(front = [] ∨ tag.text ∈ typeWords) →
      parse (phrase (front ++ [keyword, tag])) =
        ⟨phrase (front ++ [keyword]), some tag.text⟩) := by
  have filled : front ++ [keyword] ≠ [] := by simp
  have whole : phrase (front ++ [keyword, tag]) =
      phrase (front ++ [keyword]) ++ [' '] ++ (tag.text ++ sizesText []) := by
    rw [List.append_cons, phrase_concat filled]
    simp [sizesText]
  have trimmed : trim (phrase (front ++ [keyword]) ++ [' ']) = phrase (front ++ [keyword]) :=
    trim_append (phrase_starts filled) (phrase_ends filled) (by decide)
  have read : parse (phrase (front ++ [keyword, tag])) =
      if front = [] ∨ tag.text ∈ typeWords then ⟨phrase (front ++ [keyword, tag]), none⟩
      else ⟨phrase (front ++ [keyword]), some tag.text⟩ := by
    rw [whole, (Form.lead_phrase _).parse tag [] ((phrase_starts filled).append _), trimmed,
      if_congr (or_congr_right (phrase_concat_tag isTag)) rfl rfl, if_congr or_comm rfl rfl]
    simp only [sizesText, List.flatMap_nil, List.append_nil]
  rw [read]
  refine ⟨⟨fun unnamed => ?_, fun refused => if_pos refused⟩, fun named => if_neg named⟩
  by_contra named
  rw [if_neg named] at unnamed
  cases congrArg Parameter.name unnamed

/-- The plain form, and the name that a qualifier makes of the tag. -/
theorem parse_tagged_point :
    "struct".toList ∈ tagWords ∧
      parse "struct point".toList = ⟨"struct point".toList, none⟩ ∧
      parse "const struct point".toList = ⟨"const struct".toList, some "point".toList⟩ := by
  have isTag : "struct".toList ∈ tagWords := by decide
  let keyword : Word := ⟨"struct".toList, by decide, by decide⟩
  let tag : Word := ⟨"point".toList, by decide, by decide⟩
  let qualifier : Word := ⟨"const".toList, by decide, by decide⟩
  exact ⟨isTag, (parse_tagged [] keyword tag isTag).1.mpr (Or.inl rfl),
    (parse_tagged [qualifier] keyword tag isTag).2 (by decide)⟩

/-- A qualified type that is bare has a name after all. -/
theorem parse_tagged_qualified :
    parse "const struct point".toList ≠ ⟨"const struct point".toList, none⟩ := by
  decide

end CHeader.Parameter
