import GraphCompare.Graph.Basic

/-!
# The profile of a graph

What the edit distance sees of a graph: nodes by position with their labels, and labelled edges
between positions.
-/

namespace GraphCompare

/-- A graph reduced to positions and labels. -/
structure Profile where
  ids : List NodeId
  labels : List String
  edges : List (Nat × Nat × String)

namespace Profile

/-- The profile of a graph. -/
def ofGraph (g : Graph) : Profile where
  ids := g.nodes.map Node.id
  labels := g.nodes.map Node.label
  edges := g.arcs.map fun a => (a.source, a.target, a.label)

variable (p : Profile)

/-- The number of nodes. -/
def size : Nat := p.labels.length

/-- The label of a node. -/
def label (u : Nat) : String := (p.labels[u]?).getD ""

/-- The id of a node. -/
def id (u : Nat) : NodeId := (p.ids[u]?).getD ""

/-- The labels of the edges from one node to another. -/
def pair (u v : Nat) : List String :=
  p.edges.filterMap fun (s, t, l) => if s = u ∧ t = v then some l else none

/-- The number of edge ends at a node. -/
def degree (u : Nat) : Nat :=
  (p.edges.filter fun e => e.1 = u).length + (p.edges.filter fun e => e.2.1 = u).length

end Profile

end GraphCompare
