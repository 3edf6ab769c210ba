import CHeader.Proofs.Includes

/-!
# Discovery finds what is included transitively

`Explored` says what a part of a walk may add to the headers met so far: only headers that are
reached, and for each of them all that it includes, unless it is still being followed. When the walk
is over nothing is being followed any more, so what was found is closed under inclusion. Cycles do no
harm: a header that is met again is being followed or has been followed already.
-/
namespace CHeader.Scope

open Text Relation

variable {scope : Scope}

structure Explored (scope : Scope) (chain : List Text) (path : Text) (before after : List Text) :
    Prop where
  distinct : before.Nodup → after.Nodup
  kept : before ⊆ after
  reached : ∀ header ∈ after, header ∈ before ∨ TransGen scope.Includes path header
  closed : ∀ header ∈ after, header ∈ before ∨ header ∈ chain ∨
    ∀ target, scope.Includes header target → target ∈ after

namespace Explored

variable {chain before middle after : List Text} {path target : Text}

theorem refl (chain : List Text) (path : Text) (found : List Text) :
    scope.Explored chain path found found :=
  ⟨id, List.Subset.refl found, fun _ => Or.inl, fun _ => Or.inl⟩

theorem trans (first : scope.Explored chain path before middle)
    (second : scope.Explored chain path middle after) : scope.Explored chain path before after := by
  refine ⟨second.distinct ∘ first.distinct, List.Subset.trans first.kept second.kept,
    fun header member => ?_, fun header member => ?_⟩
  · rcases second.reached header member with known | reached
    · exact first.reached header known
    · exact Or.inr reached
  · rcases second.closed header member with known | following
    · rcases first.closed header known with old | active | closed
      · exact Or.inl old
      · exact Or.inr (Or.inl active)
      · exact Or.inr (Or.inr fun target includes => second.kept (closed target includes))
    · exact Or.inr following

/-- A header is met and followed, unless it is being followed already. -/
theorem enter (fresh : target ∉ before) (includes : scope.Includes path target)
    (followed : scope.Explored (target :: chain) target (before ++ [target]) after)
    (complete : target ∈ chain ∨ ∀ next, scope.Includes target next → next ∈ after) :
    scope.Explored chain path before after := by
  refine ⟨fun distinct => followed.distinct ?_,
    List.Subset.trans (List.subset_append_left before [target]) followed.kept,
    fun header member => ?_, fun header member => ?_⟩
  · simp only [List.nodup_append, List.nodup_singleton, List.mem_singleton]
    refine ⟨distinct, trivial, ?_⟩
    rintro header member _ rfl rfl
    exact fresh member
  · rcases followed.reached header member with known | reached
    · rcases List.mem_append.mp known with old | new
      · exact Or.inl old
      · rw [List.mem_singleton.mp new]
        exact Or.inr (.single includes)
    · exact Or.inr (.head includes reached)
  · rcases followed.closed header member with known | active | closed
    · rcases List.mem_append.mp known with old | new
      · exact Or.inl old
      · rw [List.mem_singleton.mp new]
        exact Or.inr complete
    · rcases List.mem_cons.mp active with rfl | before
      · exact Or.inr complete
      · exact Or.inr (Or.inl before)
    · exact Or.inr (Or.inr closed)

/-- A header is met that is being followed already, or that includes nothing. -/
theorem meet (fresh : target ∉ before) (includes : scope.Includes path target)
    (settled : target ∈ chain ∨ ∀ next, ¬scope.Includes target next) :
    scope.Explored chain path before (before ++ [target]) := by
  apply enter fresh includes (.refl _ _ _)
  exact settled.imp_right fun barren next onward => absurd onward (barren next)

end Explored

/-! ## One name -/

/-- What is done about one name in a header. -/
def meetName (scope : Scope) (fuel : Nat) (chain : List Text) (path : Text) (d : Discovery)
    (name : Text) : Discovery :=
  match scope.locate? (directoryOf path) name with
  | none => d.note (.missing name path)
  | some target =>
    if target ∈ d.found then d
    else if target ∈ path :: chain then d.meet target
    else
      let met := (d.meet target).note (.opened target)
      match readHeader scope.tree target with
      | .error cause => met.note (.notFollowed target cause)
      | .ok text => scope.follow fuel (path :: chain) target text met

theorem follow_succ (fuel : Nat) (chain : List Text) (path text : Text) (d : Discovery) :
    scope.follow (fuel + 1) chain path text d =
      (Include.extract text).foldl (scope.meetName fuel chain path) d := rfl

/-- Following a header explores it and finds all that it includes. -/
def Follows (scope : Scope) (fuel : Nat) (chain : List Text) (path text : Text) : Prop :=
  ∀ d, scope.Explored (path :: chain) path d.found (scope.follow fuel chain path text d).found ∧
    ∀ target, scope.Includes path target → target ∈ (scope.follow fuel chain path text d).found

theorem meetName_explored {fuel : Nat} {chain : List Text} {path text name : Text}
    (readable : readHeader scope.tree path = .ok text) (member : name ∈ Include.extract text)
    (onward : ∀ target text, target ∉ path :: chain → scope.tree.HasFile target →
      readHeader scope.tree target = .ok text → scope.Follows fuel (path :: chain) target text)
    (d : Discovery) :
    scope.Explored (path :: chain) path d.found (scope.meetName fuel chain path d name).found ∧
      ∀ target, scope.locate? (directoryOf path) name = some target →
        target ∈ (scope.meetName fuel chain path d name).found := by
  unfold meetName
  cases located : scope.locate? (directoryOf path) name with
  | none => exact ⟨.refl _ _ _, by simp⟩
  | some target =>
    have includes : scope.Includes path target := ⟨text, readable, name, member, located⟩
    dsimp only
    split
    next known =>
      -- a header that was met before has been followed since, or is being followed
      exact ⟨.refl _ _ _, by simp [known]⟩
    next fresh =>
      split
      next active => exact ⟨.meet fresh includes (Or.inl active), by simp [Discovery.meet]⟩
      next inactive =>
        cases reading : readHeader scope.tree target with
        | error cause =>
          exact ⟨.meet fresh includes (Or.inr (not_includes_of_error reading)),
            by simp [Discovery.meet, Discovery.note]⟩
        | ok text =>
          obtain ⟨explored, complete⟩ := onward target text inactive
            (hasFile_of_locate? located) reading ((d.meet target).note (.opened target))
          refine ⟨.enter fresh includes explored (Or.inr complete), ?_⟩
          rintro _ ⟨⟩
          exact explored.kept (by simp [Discovery.meet, Discovery.note])

theorem foldl_meetName_explored {fuel : Nat} {chain : List Text} {path : Text} {names : List Text}
    (step : ∀ name ∈ names, ∀ d,
      scope.Explored (path :: chain) path d.found (scope.meetName fuel chain path d name).found ∧
        ∀ target, scope.locate? (directoryOf path) name = some target →
          target ∈ (scope.meetName fuel chain path d name).found) (d : Discovery) :
    scope.Explored (path :: chain) path d.found
        (names.foldl (scope.meetName fuel chain path) d).found ∧
      ∀ name ∈ names, ∀ target, scope.locate? (directoryOf path) name = some target →
        target ∈ (names.foldl (scope.meetName fuel chain path) d).found := by
  induction names generalizing d with
  | nil => exact ⟨.refl _ _ _, by simp⟩
  | cons name names ih =>
    obtain ⟨first, found⟩ := step name List.mem_cons_self d
    obtain ⟨others, foundOthers⟩ := ih
      (fun other member => step other (List.mem_cons_of_mem _ member))
      (scope.meetName fuel chain path d name)
    refine ⟨first.trans others, fun other member target located => ?_⟩
    rcases List.mem_cons.mp member with rfl | later
    · exact others.kept (found target located)
    · exact foundOthers other later target located

/-! ## The whole walk -/

/-- The depth allowed is never reached: the headers being followed are distinct, and all but the
first are files of the tree. -/
theorem follows (root : Text) {path text : Text} (fuel : Nat) (chain : List Text)
    (readable : readHeader scope.tree path = .ok text) (distinct : (path :: chain).Nodup)
    (files : ∀ header ∈ path :: chain, header = root ∨ scope.tree.HasFile header)
    (enough : scope.tree.entries.length + 2 ≤ fuel + chain.length) :
    scope.Follows fuel chain path text := by
  induction fuel generalizing chain path text with
  | zero =>
    -- a chain longer than the tree has files
    have bound := length_le_of_chain distinct files
    rw [List.length_cons] at bound
    omega
  | succ fuel ih =>
    intro d
    rw [follow_succ]
    have onward : ∀ target text, target ∉ path :: chain → scope.tree.HasFile target →
        readHeader scope.tree target = .ok text →
        scope.Follows fuel (path :: chain) target text := by
      intro target text fresh file reading
      refine ih (path :: chain) reading (List.nodup_cons.mpr ⟨fresh, distinct⟩) ?_
        (by rw [List.length_cons]; omega)
      intro header member
      rcases List.mem_cons.mp member with rfl | before
      · exact Or.inr file
      · exact files header before
    obtain ⟨explored, complete⟩ := foldl_meetName_explored
      (fun name member => meetName_explored readable member onward) d
    refine ⟨explored, fun target includes => ?_⟩
    obtain ⟨name, member, located⟩ := (includes_iff readable target).mp includes
    exact complete name member target located

theorem discover_ok (scope : Scope) {path text : Text}
    (readable : readHeader scope.tree path = .ok text) :
    ∃ d, scope.discover path = .ok d ∧ d.found.Nodup ∧
      ∀ header, header ∈ d.found ↔ TransGen scope.Includes path header := by
  -- nothing is being followed or known when the walk starts
  have walk : scope.Follows (scope.tree.entries.length + 2) [] path text :=
    follows path _ [] readable (List.nodup_singleton path) (by simp) (by simp)
  obtain ⟨explored, complete⟩ := walk (Discovery.empty.note (.opened path))
  have done : scope.discover path = .ok (scope.follow (scope.tree.entries.length + 2) [] path text
      (Discovery.empty.note (.opened path))) := by
    rw [discover, readable]
  refine ⟨_, done, explored.distinct List.nodup_nil, fun header => ?_⟩
  refine ⟨fun member => ?_, fun reached => ?_⟩
  · exact (explored.reached header member).resolve_left List.not_mem_nil
  · -- every header that was found has been followed to the end, and so has the first one
    induction reached with
    | single includes => exact complete _ includes
    | @tail between _ _ includes ih =>
      rcases (explored.closed between ih).resolve_left List.not_mem_nil with active | closed
      · rw [List.mem_singleton.mp active] at includes
        exact complete _ includes
      · exact closed _ includes

theorem discover_error (scope : Scope) {path : Text} {cause : HeaderError}
    (unreadable : readHeader scope.tree path = .error cause) :
    scope.discover path = .error cause := by
  rw [discover, unreadable]

theorem readable_of_discover {path : Text} {d : Discovery}
    (discovered : scope.discover path = .ok d) : ∃ text, readHeader scope.tree path = .ok text := by
  cases reading : readHeader scope.tree path with
  | error cause =>
    rw [scope.discover_error reading] at discovered
    cases discovered
  | ok text => exact ⟨text, rfl⟩

/-- What was discovered is what the header includes transitively, each header once. -/
theorem mem_found_iff {path : Text} {d : Discovery} (discovered : scope.discover path = .ok d) :
    d.found.Nodup ∧ ∀ header, header ∈ d.found ↔ TransGen scope.Includes path header := by
  obtain ⟨text, reading⟩ := readable_of_discover discovered
  obtain ⟨other, again, found⟩ := scope.discover_ok reading
  rw [discovered, Except.ok.injEq] at again
  exact again ▸ found

theorem found_hasFile {path : Text} {d : Discovery} (discovered : scope.discover path = .ok d) :
    d.found.Nodup ∧ ∀ header ∈ d.found, scope.tree.HasFile header := by
  obtain ⟨distinct, reached⟩ := mem_found_iff discovered
  exact ⟨distinct, fun header member => scope.hasFile_of_transGen ((reached header).mp member)⟩

end CHeader.Scope
