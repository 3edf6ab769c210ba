import CHeader.Proofs.Graph.Sort
import Mathlib.Logic.Function.Basic

/-!
# Depth-first walks

The plain walk in three colours: a white node becomes grey when it is entered and black when all that
comes next to it is finished; the order lists the black nodes as they were finished. A grey node that
is met again ends the walk. `Walk` says this step by step, without a bound on the depth. A walk has
one outcome, and `visit` is such a walk where a node depends on what comes next to it.
-/
namespace CHeader.Graph

inductive Colour where
  | white
  | grey
  | black
  deriving DecidableEq, Repr

/-- The colours of the nodes, and the black ones in the order in which they were finished. -/
structure Marks where
  colour : Text → Colour
  order : List Text

namespace Marks

def fresh : Marks := ⟨fun _ => .white, []⟩

def enter (node : Text) (marks : Marks) : Marks :=
  { marks with colour := Function.update marks.colour node .grey }

def finish (node : Text) (marks : Marks) : Marks :=
  ⟨Function.update marks.colour node .black, marks.order ++ [node]⟩

end Marks

/-- A walk over some nodes, one after the other, that ends with marks or at a grey node. -/
inductive Walk (next : Text → List Text) : Marks → List Text → Except Text Marks → Prop
  | done (marks : Marks) : Walk next marks [] (.ok marks)
  | skip {marks : Marks} {node : Text} {rest : List Text} {result : Except Text Marks} :
      marks.colour node = .black → Walk next marks rest result →
      Walk next marks (node :: rest) result
  | cycle {marks : Marks} {node : Text} {rest : List Text} :
      marks.colour node = .grey → Walk next marks (node :: rest) (.error node)
  | descend {marks below : Marks} {node : Text} {rest : List Text} {result : Except Text Marks} :
      marks.colour node = .white → Walk next (marks.enter node) (next node) (.ok below) →
      Walk next (below.finish node) rest result → Walk next marks (node :: rest) result
  | fail {marks : Marks} {node cyclic : Text} {rest : List Text} :
      marks.colour node = .white → Walk next (marks.enter node) (next node) (.error cyclic) →
      Walk next marks (node :: rest) (.error cyclic)

/-- The outcome of the walk from nothing over the roots: the order, or the node at which it ended. -/
def PostOrder (next : Text → List Text) (roots : List Text) (outcome : Except Text (List Text)) :
    Prop :=
  ∃ result, Walk next .fresh roots result ∧ result.map Marks.order = outcome

namespace Walk

variable {next : Text → List Text} {marks between : Marks} {node cyclic : Text} {rest : List Text}
  {result other : Except Text Marks}

theorem unique {nodes : List Text} (walk : Walk next marks nodes result)
    (again : Walk next marks nodes other) : result = other := by
  -- the colour of the first node decides which step comes next
  induction walk generalizing other with
  | done => cases again; rfl
  | skip black _ ih =>
    cases again with
    | skip _ later => exact ih later
    | cycle grey => simp [black] at grey
    | descend white => simp [black] at white
    | fail white => simp [black] at white
  | cycle grey =>
    cases again with
    | skip black => simp [grey] at black
    | cycle => rfl
    | descend white => simp [grey] at white
    | fail white => simp [grey] at white
  | descend white _ _ ihBelow ih =>
    cases again with
    | skip black => simp [white] at black
    | cycle grey => simp [white] at grey
    | descend _ below later =>
      cases ihBelow below
      exact ih later
    | fail _ below => cases ihBelow below
  | fail white _ ih =>
    cases again with
    | skip black => simp [white] at black
    | cycle grey => simp [white] at grey
    | descend _ below => cases ih below
    | fail _ below => cases ih below; rfl

theorem cons_ok (first : Walk next marks [node] (.ok between))
    (later : Walk next between rest result) : Walk next marks (node :: rest) result := by
  cases first with
  | skip black nothing =>
    cases nothing
    exact .skip black later
  | descend white below nothing =>
    cases nothing
    exact .descend white below later

theorem cons_error (first : Walk next marks [node] (.error cyclic)) :
    Walk next marks (node :: rest) (.error cyclic) := by
  cases first with
  | skip black nothing => cases nothing
  | cycle grey => exact .cycle grey
  | descend white below nothing => cases nothing
  | fail white below => exact .fail white below

theorem of_append {front back : List Text} {final : Marks}
    (walk : Walk next marks (front ++ back) (.ok final)) :
    ∃ between, Walk next marks front (.ok between) ∧ Walk next between back (.ok final) := by
  induction front generalizing marks with
  | nil => exact ⟨marks, .done marks, walk⟩
  | cons node front ih =>
    cases walk with
    | skip black later =>
      obtain ⟨between, first, rest⟩ := ih later
      exact ⟨between, .skip black first, rest⟩
    | descend white below later =>
      obtain ⟨between, first, rest⟩ := ih later
      exact ⟨between, .descend white below first, rest⟩

/-- What is finished stays first in the order. -/
theorem order_prefix {nodes : List Text} {final : Marks} (walk : Walk next marks nodes result)
    (done : result = .ok final) : marks.order <+: final.order := by
  induction walk generalizing final with
  | done marks =>
    cases done
    exact List.prefix_refl _
  | skip _ _ ih => exact ih done
  | cycle => cases done
  | @descend marks below node _ _ _ _ _ ihBelow ih =>
    have lower : marks.order <+: below.order := ihBelow rfl
    have finished : below.order <+: (below.finish node).order := List.prefix_append _ _
    exact lower.trans (finished.trans (ih done))
  | fail => cases done

end Walk

theorem postOrder_iff {next : Text → List Text} {roots : List Text} {result : Except Text Marks}
    (walk : Walk next .fresh roots result) (outcome : Except Text (List Text)) :
    PostOrder next roots outcome ↔ outcome = result.map Marks.order := by
  constructor
  · rintro ⟨other, again, rfl⟩
    rw [walk.unique again]
  · rintro rfl
    exact ⟨result, walk, rfl⟩

/-- Roots behind others add to the end of the order. -/
theorem PostOrder.of_append {next : Text → List Text} {front back order : List Text}
    (whole : PostOrder next (front ++ back) (.ok order)) :
    ∃ first, PostOrder next front (.ok first) ∧ first <+: order := by
  obtain ⟨result, walk, same⟩ := whole
  cases result with
  | error cyclic => cases same
  | ok final =>
    cases same
    obtain ⟨between, first, later⟩ := walk.of_append
    exact ⟨between.order, ⟨.ok between, first, rfl⟩, later.order_prefix rfl⟩

/-! ## Marks and lists -/

/-- The marks of a visit: `active` are being visited and `done` are finished. -/
structure Marks.Show (marks : Marks) (active done : List Text) : Prop where
  order : marks.order = done
  colour : ∀ node, marks.colour node =
    if node ∈ done then .black else if node ∈ active then .grey else .white

namespace Marks.Show

variable {marks : Marks} {active done : List Text} {node : Text}

theorem fresh : Marks.fresh.Show [] [] := ⟨rfl, fun _ => by simp [Marks.fresh]⟩

theorem enter (shows : marks.Show active done) (unfinished : node ∉ done) :
    (marks.enter node).Show (node :: active) done := by
  refine ⟨shows.order, ?_⟩
  intro other
  by_cases same : other = node
  · subst same
    simp [Marks.enter, unfinished]
  · simp [Marks.enter, same, shows.colour other]

theorem finish (shows : marks.Show (node :: active) done) :
    (marks.finish node).Show active (done ++ [node]) := by
  refine ⟨by rw [Marks.finish, shows.order], ?_⟩
  intro other
  by_cases same : other = node
  · subst same
    simp [Marks.finish]
  · simp [Marks.finish, same, shows.colour other]

end Marks.Show

/-- The results of a visit and of a walk: the same node, or marks of the finished nodes. -/
inductive Agree (active : List Text) : Except Text (List Text) → Except Text Marks → Prop
  | ok {done : List Text} {marks : Marks} : marks.Show active done → Agree active (.ok done) (.ok marks)
  | error (cyclic : Text) : Agree active (.error cyclic) (.error cyclic)

theorem Agree.map_order {active : List Text} {visited : Except Text (List Text)}
    {result : Except Text Marks} (agree : Agree active visited result) :
    result.map Marks.order = visited := by
  cases agree with
  | ok shows => exact congrArg Except.ok shows.order
  | error => rfl

end CHeader.Graph
