import CHeader.Graph.Sort
import CHeader.Resolver.Cache
import CHeader.Resolver.Discovery

/-!
# Resolving and ordering headers

A resolver answers which headers a header depends on, what the dependency graph of several headers
is, and in which order headers can be compiled. Answers about single headers are cached. A header
that was asked for has to be readable; one that is met on the way may be unreadable and then depends
on nothing.
-/
namespace CHeader

open Text

structure Resolver where
  systemPaths : List Text

/-- What a resolver remembers, and what it has done. -/
structure Session where
  cache : Cache
  events : List Event

abbrev Outcome (α : Type) := Except ResolveError α × Session

namespace Session

def empty : Session := ⟨[], []⟩

def note (event : Event) (s : Session) : Session := { s with events := s.events ++ [event] }

end Session

namespace Resolver

def scope (r : Resolver) (tree : FileTree) (searchPaths : List Text) : Scope :=
  ⟨tree, searchPaths, r.systemPaths⟩

/-- Discover the dependencies of a canonical path and keep them. -/
def resolveFresh (r : Resolver) (tree : FileTree) (path : Text) (searchPaths : List Text)
    (s : Session) : Outcome (List Text) :=
  match (r.scope tree searchPaths).discover path with
  | .error cause => (.error (.header cause), s)
  | .ok discovery =>
    let s := { s with events := s.events ++ discovery.events }
    match s.cache.store tree path searchPaths discovery.found with
    | .error cause => (.error (.path cause), s)
    | .ok cache => (.ok discovery.found, { s with cache := cache })

/-- Every header that a header includes, directly or not, in the order of discovery. -/
def dependencies (r : Resolver) (tree : FileTree) (header : Text) (searchPaths : List Text)
    (s : Session) : Outcome (List Text) :=
  match tree.canonical header with
  | .error cause => (.error (.path cause), s)
  | .ok path =>
    match s.cache.fetch tree path searchPaths with
    | .error cause => (.error (.path cause), s)
    | .ok (some known) => (.ok known, s.note (.cacheHit path))
    | .ok none => r.resolveFresh tree path searchPaths s

/-- The graph of the headers that were asked for, from a graph of those before them. -/
def rootGraph (r : Resolver) (tree : FileTree) (searchPaths : List Text) :
    (headers : List Text) → Graph → Session → Outcome Graph
  | [], graph, s => (.ok graph, s)
  | header :: rest, graph, s =>
    match tree.canonical header with
    | .error cause => (.error (.path cause), s)
    | .ok root =>
      match r.dependencies tree root searchPaths s with
      | (.error cause, s) => (.error cause, s)
      | (.ok found, s) => rootGraph r tree searchPaths rest (graph.set root found) s

/-- The dependencies of a header that was met on the way. -/
def metDependencies (r : Resolver) (tree : FileTree) (searchPaths : List Text) (roots : Graph)
    (node : Text) (s : Session) : Outcome (List Text) :=
  match roots.get? node with
  | some known => (.ok known, s)
  | none =>
    match r.dependencies tree node searchPaths s with
    -- met on the way, so that not being readable is no failure
    | (.error (.header cause), s) => (.ok [], s.note (.leaf node cause))
    | outcome => outcome

/-- Enter the pending nodes and all that they depend on, first come first served. -/
def closeGraph (r : Resolver) (tree : FileTree) (searchPaths : List Text) (roots : Graph) :
    (fuel : Nat) → (pending : List Text) → Graph → Session → Outcome Graph
  | 0, _, graph, s => (.ok graph, s)
  | _ + 1, [], graph, s => (.ok graph, s)
  | fuel + 1, node :: rest, graph, s =>
    if (graph.get? node).isSome then closeGraph r tree searchPaths roots fuel rest graph s
    else
      match r.metDependencies tree searchPaths roots node s with
      | (.error cause, s) => (.error cause, s)
      | (.ok found, s) =>
        let graph := graph.set node found
        -- a node may still be pending twice; it is dropped when its turn comes again
        let fresh := found.filter fun dependency => (graph.get? dependency).isNone
        closeGraph r tree searchPaths roots fuel (rest ++ fresh) graph s

/-- More steps than closing a graph takes: no more nodes can be met than are pending, cached or
files of the tree, and none of them depends on more than that many. -/
def closingSteps (tree : FileTree) (pending : List Text) (s : Session) : Nat :=
  let nodes := pending.length + tree.entries.length +
    (s.cache.flatMap fun (_, found) => found).length
  (nodes + 1) * (nodes + 1)

/-- The dependencies of each header; with `closed`, of every header met on the way as well. -/
def graph (r : Resolver) (tree : FileTree) (headers searchPaths : List Text) (closed : Bool)
    (s : Session) : Outcome Graph :=
  match r.rootGraph tree searchPaths headers [] s with
  | (.error cause, s) => (.error cause, s)
  | (.ok roots, s) =>
    if closed then
      let pending := roots.flatMap fun (root, found) => root :: found
      r.closeGraph tree searchPaths roots (closingSteps tree pending s) pending [] s
    else (.ok roots, s)

/-- The headers and all that they depend on, each after everything it depends on. -/
def compilationOrder (r : Resolver) (tree : FileTree) (headers searchPaths : List Text)
    (s : Session) : Outcome (List Text) :=
  match r.graph tree headers searchPaths true s with
  | (.error cause, s) => (.error cause, s)
  | (.ok graph, s) =>
    match graph.topologicalOrder with
    | .error header => (.error (.circular header), s)
    | .ok order => (.ok order, s.note (.ordered order))

end Resolver

end CHeader
