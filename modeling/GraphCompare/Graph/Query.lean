import GraphCompare.Graph.Basic

/-!
# Questions about the edges of a graph

A question about the edges at a node looks up the position of the node and then goes through the
edges from the newest to the oldest. A node's degree counts the edges that leave it and the edges
that reach it, so an edge from a node to itself counts twice.
-/

namespace GraphCompare.Graph

variable (g : Graph)

/-- The edges with one of their ends at a node, newest first. -/
def edgesAt (endOf : Arc → Nat) (id : NodeId) : List Edge :=
  match g.position? id with
  | none => []
  | some i => ((g.arcs.zip g.edges).reverse.filter fun e => endOf e.1 == i).map Prod.snd

/-- The edges that leave a node, newest first. -/
def edgesFrom (id : NodeId) : List Edge := g.edgesAt Arc.source id

/-- The edges that reach a node, newest first. -/
def edgesTo (id : NodeId) : List Edge := g.edgesAt Arc.target id

/-- The number of edge ends at a node; none at an id without a node. -/
def degree (id : NodeId) : Nat := (g.edgesFrom id).length + (g.edgesTo id).length

/-- Whether an edge with a label leads from one node to another. -/
def hasEdge (source target : NodeId) (label : String) : Bool :=
  (g.edgesFrom source).any fun e => e.target == target && e.label == label

/-- The first node with a label. -/
def findByLabel? (label : String) : Option NodeId :=
  (g.nodes.find? (·.label == label)).map Node.id

end GraphCompare.Graph
