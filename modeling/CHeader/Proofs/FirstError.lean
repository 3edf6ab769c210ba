import Mathlib.Data.List.Basic

/-!
# The first error

Going through a list and stopping at the first item that fails gives the error of that item, and no
error if there is none.
-/
namespace CHeader

variable {α β σ ε : Type} {f : α → Except ε β} {item : α} {items : List α} {cause : ε}

/-- The error is that of the first item that has one. -/
def FirstError (f : α → Except ε β) (items : List α) (cause : ε) : Prop :=
  ∃ before item after, items = before ++ item :: after ∧
    (∀ earlier ∈ before, ∃ value, f earlier = .ok value) ∧ f item = .error cause

theorem not_firstError_nil : ¬FirstError f [] cause := by
  rintro ⟨before, item, after, same, -⟩
  simp at same

theorem firstError_cons :
    FirstError f (item :: items) cause ↔
      f item = .error cause ∨ (∃ value, f item = .ok value) ∧ FirstError f items cause := by
  constructor
  · rintro ⟨before, refused, after, same, succeeded, failed⟩
    cases before with
    | nil =>
      cases same
      exact Or.inl failed
    | cons first before =>
      cases same
      obtain ⟨here, others⟩ := List.forall_mem_cons.mp succeeded
      exact Or.inr ⟨here, before, refused, after, rfl, others, failed⟩
  · rintro (failed | ⟨succeeded, before, refused, after, rfl, others, failed⟩)
    · exact ⟨[], item, items, rfl, by simp, failed⟩
    · exact ⟨item :: before, refused, after, rfl,
        List.forall_mem_cons.mpr ⟨succeeded, others⟩, failed⟩

/-- Nothing fails in a list of items that all succeed. -/
theorem not_firstError_of_ok (each : ∀ item ∈ items, ∃ value, f item = .ok value) :
    ¬FirstError f items cause := by
  rintro ⟨before, item, after, rfl, -, failed⟩
  obtain ⟨value, succeeded⟩ := each item (by simp)
  rw [succeeded] at failed
  cases failed

/-- If there is only one error, the list has it if and only if some item has it. -/
theorem firstError_iff_exists {only : ε} {fails : α → Prop}
    (errors : ∀ item cause, f item = .error cause ↔ cause = only ∧ fails item) :
    FirstError f items cause ↔ cause = only ∧ ∃ item ∈ items, fails item := by
  induction items with
  | nil => simp [not_firstError_nil]
  | cons item items ih =>
    rw [firstError_cons, ih, errors]
    have succeeds : (∃ value, f item = .ok value) ↔ ¬fails item := by
      rw [← not_iff_not, not_not, not_exists]
      cases result : f item with
      | ok value =>
        have none := errors item only
        rw [result] at none
        simpa using none
      | error refusal => simpa using ((errors item refusal).mp result).2
    rw [succeeds, List.exists_mem_cons_iff]
    tauto

/-- A fold fails at the first item that fails if its steps fail only there. -/
theorem foldlM_eq_error_iff {step : σ → α → Except ε σ} {enter : σ → α → β → σ}
    (steps : ∀ state item, step state item = (f item).map (enter state item)) (state : σ) :
    items.foldlM step state = .error cause ↔ FirstError f items cause := by
  induction items generalizing state with
  | nil =>
    constructor
    · intro failed
      cases failed
    · exact fun failed => absurd failed not_firstError_nil
  | cons item rest ih =>
    rw [List.foldlM_cons, steps, firstError_cons]
    cases f item with
    | error refusal => simp [Except.map, bind, Except.bind]
    | ok value => simp [Except.map, bind, Except.bind, ih]

/-- Working out every item fails at the first item that fails. -/
theorem mapM_eq_error_iff : items.mapM f = .error cause ↔ FirstError f items cause := by
  induction items with
  | nil =>
    constructor
    · intro failed
      cases failed
    · exact fun failed => absurd failed not_firstError_nil
  | cons item rest ih =>
    rw [List.mapM_cons, firstError_cons, ← ih]
    cases f item with
    | error refusal => simp [bind, Except.bind]
    | ok value => cases rest.mapM f <;> simp [bind, Except.bind, pure, Except.pure]

theorem mapM_eq_ok (each : ∀ item ∈ items, ∃ result, f item = .ok result) :
    ∃ results, items.mapM f = .ok results := by
  induction items with
  | nil => exact ⟨[], rfl⟩
  | cons item items ih =>
    obtain ⟨⟨result, here⟩, others⟩ := List.forall_mem_cons.mp each
    obtain ⟨results, later⟩ := ih others
    exact ⟨result :: results, by rw [List.mapM_cons, here, later]; rfl⟩

theorem mapM_cons_eq_ok {results : List β} (mapped : (item :: items).mapM f = .ok results) :
    ∃ result others, f item = .ok result ∧ items.mapM f = .ok others ∧ result :: others = results := by
  rw [List.mapM_cons] at mapped
  cases here : f item with
  | error cause =>
    rw [here] at mapped
    cases mapped
  | ok result =>
    cases later : items.mapM f with
    | error cause =>
      rw [here, later] at mapped
      cases mapped
    | ok others =>
      rw [here, later] at mapped
      exact ⟨result, others, rfl, rfl, Except.ok.inj mapped⟩

/-- Every result is that of some item. -/
theorem exists_of_mem_mapM {results : List β} (mapped : items.mapM f = .ok results) :
    ∀ result ∈ results, ∃ item ∈ items, f item = .ok result := by
  induction items generalizing results with
  | nil =>
    cases mapped
    simp
  | cons item items ih =>
    obtain ⟨result, others, here, later, rfl⟩ := mapM_cons_eq_ok mapped
    rw [List.forall_mem_cons]
    refine ⟨⟨item, List.mem_cons_self, here⟩, fun result' member => ?_⟩
    obtain ⟨item', inside, worked⟩ := ih later result' member
    exact ⟨item', List.mem_cons_of_mem item inside, worked⟩

end CHeader
