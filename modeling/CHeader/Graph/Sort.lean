import CHeader.Table
import CHeader.Text.Basic

/-!
# Topological order

A graph lists for each node the nodes it depends on. Nodes that are only mentioned depend on nothing.
The order is a depth-first post-order: a node follows everything it depends on, and nodes are
entered in the order of the graph. A node that is reached while it is being visited lies on a cycle.
-/
namespace CHeader

abbrev Graph := Table Text (List Text)

namespace Graph

def dependencies (graph : Graph) (node : Text) : List Text := (graph.get? node).getD []

/-- All nodes, mentioned ones included; a node may occur more than once. -/
def nodes (graph : Graph) : List Text := graph.flatMap fun (node, deps) => node :: deps

/-- Visit a node that is reached through the chain `active`; `done` holds the finished nodes in
order. The error is a node on a cycle. -/
def visit (graph : Graph) : (fuel : Nat) → (active done : List Text) → (node : Text) →
    Except Text (List Text)
  | 0, _, done, _ => .ok done
  | fuel + 1, active, done, node =>
    if node ∈ done then .ok done
    -- reached again before it was finished
    else if node ∈ active then .error node
    else
      match (graph.dependencies node).foldlM (visit graph fuel (node :: active)) done with
      | .ok done => .ok (done ++ [node])
      | .error cyclic => .error cyclic

/-- The nodes in dependency order, or a node on a cycle. A chain of distinct nodes is no longer than
the list of nodes, so the depth allowed is never reached. -/
def topologicalOrder (graph : Graph) : Except Text (List Text) :=
  graph.keys.foldlM (visit graph (graph.nodes.length + 2) []) []

end Graph

end CHeader
