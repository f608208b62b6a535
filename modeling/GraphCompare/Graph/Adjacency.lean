import GraphCompare.Graph.Basic

/-!
# The adjacency of a graph

For every node the nodes its edges reach, and for each of those the attributes of the edges between
the two, oldest first. Nodes without edges are in it too.
-/

namespace GraphCompare

/-- The attributes of the edges by source and target. -/
abbrev Adjacency := SortedMap NodeId (SortedMap NodeId (List Attributes))

/-- Adds an edge at the end of those between its source and its target. -/
def Adjacency.addEdge (m : Adjacency) (e : Edge) : Adjacency :=
  SortedMap.alter m e.source fun targets =>
    (targets.getD .empty).alter e.target fun bags => bags.getD [] ++ [e.attributes]

/-- The adjacency of the whole graph. -/
def Graph.adjacency (g : Graph) : Adjacency :=
  g.edges.foldl Adjacency.addEdge (SortedMap.ofList (g.nodes.map fun n => (n.id, .empty)))

end GraphCompare
