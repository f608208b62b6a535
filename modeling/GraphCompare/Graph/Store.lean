import GraphCompare.Graph.Query

/-!
# How a graph is kept

A store keeps a graph in a form in which it grows and is asked step by step: the nodes and the edges
in the order in which they were added, an index with the place of every id, and chains that lead
from the newest edge at a place to the older ones there. An edge is kept with its number and the ids
of its ends, and beside it the places of its ends.

An addition answers with the id of its node or the number of its edge, or with an error, and in
either case it gives the store behind it. That index, chains, numbers and ids stay in step is not
part of the type of a store.
-/

namespace GraphCompare

/-- Chains of edges: the number of the newest edge at each place, and for each edge the number of
the next older one at the same place. -/
structure Chains where
  newest : Nat → Option Nat
  older : List (Option Nat)

namespace Chains

/-- Chains without edges. -/
def empty : Chains := ⟨fun _ => none, []⟩

/-- A new edge is put in front of the chain at its end. -/
def push (c : Chains) (i : Nat) : Chains where
  newest j := if j = i then some c.older.length else c.newest j
  older := c.older ++ [c.newest i]

/-- The chains of edges with ends at the given places. -/
def ofEnds (ends : List Nat) : Chains := ends.foldl push empty

/-- The numbers that are met from an edge on, at most as many as are allowed. -/
def walkWithin (c : Chains) : Nat → Option Nat → List Nat
  | 0, _ => []
  | _, none => []
  | steps + 1, some k => k :: c.walkWithin steps (c.older[k]?).join

/-- The numbers of the edges at a place, newest first. No chain has more than there are edges. -/
def walk (c : Chains) (i : Nat) : List Nat := c.walkWithin c.older.length (c.newest i)

end Chains

/-- An edge with the places of its ends. -/
structure StoredEdge where
  source : Nat
  target : Nat
  edge : Edge

/-- A graph as it is kept. -/
structure Store where
  nodes : List Node
  edges : List StoredEdge
  /-- The place of every id. -/
  index : SortedMap NodeId Nat
  /-- The chains of the edges that leave a place. -/
  leaving : Chains
  /-- The chains of the edges that reach a place. -/
  reaching : Chains

namespace Store

/-- The store without nodes. -/
def empty : Store := ⟨[], [], .empty, .empty, .empty⟩

variable (s : Store)

/-! ## Additions -/

/-- Whether there is a node with an id. -/
def contains (id : NodeId) : Bool := (s.index.get? id).isSome

/-- The store with one more node. -/
def pushNode (id : NodeId) (attributes : Attributes) : Store :=
  { s with nodes := s.nodes ++ [⟨id, attributes⟩], index := s.index.insert id s.nodes.length }

/-- The store with one more edge, between places. -/
def pushEdge (source target : Nat) (edge : Edge) : Store :=
  { s with
    edges := s.edges ++ [⟨source, target, edge⟩]
    leaving := s.leaving.push source
    reaching := s.reaching.push target }

/-- Adds a node, and answers with its id. An id that is taken is refused. -/
def addNode (id : NodeId) (attributes : Attributes) : Except GraphError NodeId × Store :=
  if s.contains id then (.error (.duplicateNode id), s) else (.ok id, s.pushNode id attributes)

/-- Adds a node unless there is one with its id, and answers with the id. -/
def ensureNode (id : NodeId) (attributes : Attributes) : NodeId × Store :=
  (id, if s.contains id then s else s.pushNode id attributes)

/-- Adds an edge, and answers with its number. A missing source is reported before a missing
target. -/
def addEdge (source target : NodeId) (attributes : Attributes) : Except GraphError EdgeId × Store :=
  match s.index.get? source, s.index.get? target with
  | none, _ => (.error (.unknownNode source), s)
  | some _, none => (.error (.unknownNode target), s)
  | some i, some j =>
    let id : EdgeId := ⟨.ofNat s.edges.length⟩
    (.ok id, s.pushEdge i j ⟨id, source, target, attributes⟩)

/-! ## Questions -/

/-- The number of nodes. -/
def nodeCount : Nat := s.nodes.length

/-- The number of edges. -/
def edgeCount : Nat := s.edges.length

/-- The node with an id. -/
def node? (id : NodeId) : Option Node := (s.index.get? id).bind (s.nodes[·]?)

/-- The edges in the order in which they were added. -/
def allEdges : List Edge := s.edges.map StoredEdge.edge

/-- The edges with the places of their ends. -/
def positionedEdges : List (Nat × Nat × Edge) := s.edges.map fun e => (e.source, e.target, e.edge)

/-- The edges at a node in the order of their chain. -/
def edgesAlong (chains : Chains) (id : NodeId) : List Edge :=
  match s.index.get? id with
  | none => []
  | some i => (chains.walk i).filterMap fun k => (s.edges[k]?).map StoredEdge.edge

/-- The edges that leave a node, newest first. -/
def edgesFrom (id : NodeId) : List Edge := s.edgesAlong s.leaving id

/-- The edges that reach a node, newest first. -/
def edgesTo (id : NodeId) : List Edge := s.edgesAlong s.reaching id

/-- The number of edge ends at a node; none at an id without a node. -/
def degree (id : NodeId) : Nat := (s.edgesFrom id).length + (s.edgesTo id).length

/-- Whether an edge with a label leads from one node to another. -/
def hasEdge (source target : NodeId) (label : String) : Bool :=
  (s.edgesFrom source).any fun e => e.target == target && e.label == label

/-- The graph that a store keeps, if its ids are distinct and its edges end at nodes. -/
def graph? : Option Graph :=
  let arcs : List Arc := s.edges.map fun e => ⟨e.source, e.target, e.edge.attributes⟩
  if h : (s.nodes.map Node.id).Nodup ∧
      ∀ a ∈ arcs, a.source < s.nodes.length ∧ a.target < s.nodes.length then
    some ⟨s.nodes, arcs, h.1, h.2⟩
  else none

end Store

end GraphCompare
