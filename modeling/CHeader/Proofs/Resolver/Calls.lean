import CHeader.Proofs.Resolver.Graph

/-!
# Runs of calls

One resolver answers call after call and remembers. A run is transparent if every reply is the one
that a resolver without a memory gives. Runs about settled headers are transparent; all runs are
when headers that share a key have the same dependencies, and only then.
-/
namespace CHeader.Resolver

open Text

variable {tree : FileTree} {r : Resolver} {asked : Text → Prop} {s : Session}

inductive Call where
  | dependencies (header : Text) (searchPaths : List Text)
  | graph (headers searchPaths : List Text) (closed : Bool)
  | order (headers searchPaths : List Text)

inductive Reply where
  | headers (result : Except ResolveError (List Text))
  | graph (result : Except ResolveError Graph)

namespace Call

def headers : Call → List Text
  | .dependencies header _ => [header]
  | .graph headers _ _ => headers
  | .order headers _ => headers

def run (r : Resolver) (tree : FileTree) : Call → Session → Reply × Session
  | .dependencies header searchPaths, s =>
    let (result, s) := r.dependencies tree header searchPaths s
    (.headers result, s)
  | .graph headers searchPaths closed, s =>
    let (result, s) := r.graph tree headers searchPaths closed s
    (.graph result, s)
  | .order headers searchPaths, s =>
    let (result, s) := r.compilationOrder tree headers searchPaths s
    (.headers result, s)

/-- The reply when nothing is remembered. -/
def reply (r : Resolver) (tree : FileTree) (call : Call) : Reply := (call.run r tree .empty).1

end Call

def replies (r : Resolver) (tree : FileTree) : List Call → Session → List Reply
  | [], _ => []
  | call :: rest, s => (call.run r tree s).1 :: replies r tree rest (call.run r tree s).2

def Transparent (r : Resolver) (tree : FileTree) (calls : List Call) : Prop :=
  r.replies tree calls .empty = calls.map (Call.reply r tree)

/-! ## Truthful sessions stay truthful -/

/-- The headers that may be asked for include the files and are closed under canonical paths. -/
structure Askable (tree : FileTree) (asked : Text → Prop) : Prop where
  files : ∀ path, tree.HasFile path → asked path
  canonical : ∀ header, asked header → ∀ path, tree.canonical header = .ok path → asked path

theorem askable_settled (tree : FileTree) : Askable tree tree.Settled :=
  ⟨fun _ file => file.settled, fun _ settled _ canonical => settled.canonical canonical⟩

theorem Call.run_truthful (askable : Askable tree asked) (agree : r.KeysAgree tree asked)
    (truthful : r.Truthful tree asked s) {call : Call}
    (members : ∀ header ∈ call.headers, asked header) :
    (call.run r tree s).1 = call.reply r tree ∧ r.Truthful tree asked (call.run r tree s).2 := by
  have roots : ∀ header ∈ call.headers, ∀ root, tree.canonical header = .ok root → asked root :=
    fun header member => askable.canonical header (members header member)
  cases call with
  | dependencies header searchPaths =>
    obtain ⟨same, after⟩ := dependencies_truthful searchPaths agree truthful
      (members header List.mem_cons_self)
    exact ⟨congrArg Reply.headers same, after⟩
  | graph headers searchPaths closed =>
    obtain ⟨same, after⟩ := graph_truthful searchPaths agree askable.files truthful
      roots closed
    have fresh := (graph_truthful searchPaths agree askable.files truthful_empty
      roots closed).1
    exact ⟨congrArg Reply.graph (same.trans fresh.symm), after⟩
  | order headers searchPaths =>
    obtain ⟨same, after⟩ := compilationOrder_truthful searchPaths agree
      askable.files truthful roots
    have fresh := (compilationOrder_truthful searchPaths agree askable.files
      truthful_empty roots).1
    exact ⟨congrArg Reply.headers (same.trans fresh.symm), after⟩

theorem replies_truthful (askable : Askable tree asked) (agree : r.KeysAgree tree asked)
    (truthful : r.Truthful tree asked s) {calls : List Call}
    (members : ∀ call ∈ calls, ∀ header ∈ call.headers, asked header) :
    r.replies tree calls s = calls.map (Call.reply r tree) := by
  induction calls generalizing s with
  | nil => rfl
  | cons call rest ih =>
    obtain ⟨here, others⟩ := List.forall_mem_cons.mp members
    obtain ⟨same, after⟩ := Call.run_truthful askable agree truthful here
    rw [replies, List.map_cons, same, ih after others]

/-! ## When the memory does not show -/

/-- Asking for a header and then for another one with the same key shows a list that is not its
own. -/
theorem keysAgree_of_transparent (transparent : ∀ calls, r.Transparent tree calls) :
    r.KeysAgree tree fun _ => True := by
  intro header other path otherPath key searchPaths found _ _ keyed otherKeyed answered
  have run := transparent [.dependencies header searchPaths, .dependencies other searchPaths]
  simp only [Transparent, replies, List.map_cons, List.map_nil, List.cons.injEq] at run
  obtain ⟨-, second, -⟩ := run
  have kept : (r.dependencies tree header searchPaths .empty).2.cache.get? (key, searchPaths) =
      some found := by
    rw [r.answer_of_keyed searchPaths keyed] at answered
    rw [dependencies_miss keyed rfl]
    cases discovered : (r.scope tree searchPaths).discover path with
    | error cause =>
      rw [discovered] at answered
      cases answered
    | ok d =>
      rw [discovered] at answered
      cases answered
      exact Table.get?_set_self _ _ _
  -- the second question is answered from the list of the first
  have hit := dependencies_hit (r := r) otherKeyed kept
  simp only [Call.run, Call.reply, hit, Reply.headers.injEq] at second
  exact second.symm

theorem transparent_iff (r : Resolver) (tree : FileTree) :
    (∀ calls, (∀ call ∈ calls, ∀ header ∈ call.headers, tree.Settled header) →
      r.Transparent tree calls) ∧
    ((∀ calls, r.Transparent tree calls) ↔ r.KeysAgree tree fun _ => True) := by
  refine ⟨fun calls settled => ?_, keysAgree_of_transparent, fun agree calls => ?_⟩
  · exact replies_truthful (askable_settled tree) (keysAgree_settled r tree) truthful_empty settled
  · exact replies_truthful ⟨fun _ _ => trivial, fun _ _ _ _ => trivial⟩ agree truthful_empty
      fun _ _ _ _ => trivial

theorem transparent_iff_looped :
    (Resolver.mk []).Transparent FileTree.loopedTree
        [.dependencies "s/y.h".toList [], .order ["x.h".toList] []] ∧
      ((∀ calls, (Resolver.mk []).Transparent FileTree.loopedTree calls) ↔
        (Resolver.mk []).KeysAgree FileTree.loopedTree fun _ => True) := by
  obtain ⟨settled, exactly⟩ := transparent_iff ⟨[]⟩ FileTree.loopedTree
  refine ⟨settled _ fun call member header named => ?_, exactly⟩
  have readable : readHeader FileTree.loopedTree header = .ok "#include \"z.h\"\n".toList := by
    rcases List.mem_pair.mp member with rfl | rfl
    · cases List.mem_singleton.mp named
      cbv
    · cases List.mem_singleton.mp named
      cbv
  exact FileTree.settled_of_readable readable

theorem not_transparent_looped :
    ¬(Resolver.mk []).Transparent FileTree.loopedTree
      [.dependencies "l/../x.h".toList [], .dependencies "s/y.h".toList []] := by
  intro transparent
  have run : (Resolver.mk []).replies FileTree.loopedTree
      [.dependencies "l/../x.h".toList [], .dependencies "s/y.h".toList []] .empty =
      [.headers (.ok []), .headers (.ok [])] := by cbv
  have fresh : Call.reply ⟨[]⟩ FileTree.loopedTree (.dependencies "s/y.h".toList []) =
      .headers (.ok ["/s/z.h".toList]) := by cbv
  rw [Transparent, run, List.map_cons, List.map_cons, fresh] at transparent
  simp only [List.cons.injEq, Reply.headers.injEq, Except.ok.injEq] at transparent
  obtain ⟨-, second, -⟩ := transparent
  cases second

end CHeader.Resolver
