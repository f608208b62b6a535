import GraphCompare.Graph.Basic

/-!
# The difference of two graphs

Two graphs are compared by their labels: the set of the labels of the nodes, and the set of triples
of labels, source, target and own, of the edges. `Difference.between` tells which labels and which
triples only one of the graphs has, and draws them as a change graph. Its nodes are labels, with `-`
before a label that only the first graph has and `+` before one that only the second has; its edges
are the triples, signed in the same way. A label that both have is a node without sign where a
changed triple needs it, and everywhere if what is common is to be shown.

A graph that is absent counts as one without nodes. If one of the two has no nodes, nothing is
compared and the change graph is the other one as it stands.
-/

namespace GraphCompare

/-- An edge reduced to labels. -/
structure EdgeTriple where
  source : String
  target : String
  label : String
deriving DecidableEq

namespace EdgeTriple

/-- The labels in the order in which triples are compared. -/
def key (t : EdgeTriple) : String × String × String := (t.source, t.target, t.label)

instance : Ord EdgeTriple := ⟨compareOn key⟩

instance : Std.TransOrd EdgeTriple := inferInstanceAs (Std.TransCmp (compareOn key))

instance : Std.LawfulEqOrd EdgeTriple where
  eq_of_compare {a b} h := by
    have h : a.key = b.key := Std.LawfulEqOrd.eq_of_compare (α := String × String × String) h
    cases a; cases b
    simpa [key] using h

end EdgeTriple

namespace Graph

/-- The label of the node at a position. -/
def labelAt (g : Graph) (i : Nat) : String := (g.nodes[i]?.map Node.label).getD ""

/-- The labels of the nodes. -/
def labelSet (g : Graph) : SortedSet String := .ofList (g.nodes.map Node.label)

/-- The label triple of an arc. -/
def triple (g : Graph) (a : Arc) : EdgeTriple := ⟨g.labelAt a.source, g.labelAt a.target, a.label⟩

/-- The label triples of the edges. -/
def tripleSet (g : Graph) : SortedSet EdgeTriple := .ofList (g.arcs.map g.triple)

/-- Adds a node that is named by its label, unless there is one of that name. -/
def ensureLabel (g : Graph) (label : String) : Graph := g.ensureNode label (.ofLabel label)

/-- Adds an edge between nodes that are named by their labels, and the nodes where they are new. -/
def addTriple (g : Graph) (t : EdgeTriple) : Graph :=
  let g := (g.ensureLabel t.source).ensureLabel t.target
  match g.addEdge t.source t.target (.ofLabel t.label) with
  | .ok g => g
  | .error _ => g

end Graph

/-- A text with a sign before it. -/
def signed (sign : Char) (s : String) : String := String.ofList (sign :: s.toList)

/-- A changed triple: its label is signed, and so is an end that is changed itself. -/
def EdgeTriple.signed (t : EdgeTriple) (sign : Char) (changed : SortedSet String) : EdgeTriple :=
  let mark (label : String) := if label ∈ changed then GraphCompare.signed sign label else label
  ⟨mark t.source, mark t.target, GraphCompare.signed sign t.label⟩

/-- What two graphs differ in. -/
structure Difference where
  /-- The drawing of what changed. -/
  graph : Graph
  addedNodes : SortedSet String
  removedNodes : SortedSet String
  commonNodes : SortedSet String
  addedEdges : SortedSet EdgeTriple
  removedEdges : SortedSet EdgeTriple
  commonEdges : SortedSet EdgeTriple

namespace Difference

/-- A graph that was compared with nothing. -/
def unchanged (g : Graph) : Difference := ⟨g, .empty, .empty, .empty, .empty, .empty, .empty⟩

/-- Draws the changes: the nodes that were removed, then added, then the common ones, and the edges
in the same order, each kind sorted. -/
def draw (includeCommon : Bool) (addedNodes removedNodes commonNodes : SortedSet String)
    (addedEdges removedEdges commonEdges : SortedSet EdgeTriple) : Graph :=
  let nodes := removedNodes.toList.map (signed '-') ++ addedNodes.toList.map (signed '+') ++
    if includeCommon then commonNodes.toList else []
  let edges := removedEdges.toList.map (·.signed '-' removedNodes) ++
    addedEdges.toList.map (·.signed '+' addedNodes) ++
    if includeCommon then commonEdges.toList else []
  edges.foldl Graph.addTriple (nodes.foldl Graph.ensureLabel .empty)

/-- The difference of two graphs that have nodes. -/
def ofGraphs (first second : Graph) (includeCommon : Bool) : Difference :=
  let removedNodes := first.labelSet.filter (· ∉ second.labelSet)
  let addedNodes := second.labelSet.filter (· ∉ first.labelSet)
  let commonNodes := first.labelSet.filter (· ∈ second.labelSet)
  let removedEdges := first.tripleSet.filter (· ∉ second.tripleSet)
  let addedEdges := second.tripleSet.filter (· ∉ first.tripleSet)
  let commonEdges := first.tripleSet.filter (· ∈ second.tripleSet)
  { graph := draw includeCommon addedNodes removedNodes commonNodes addedEdges removedEdges
      commonEdges
    addedNodes, removedNodes, commonNodes, addedEdges, removedEdges, commonEdges }

/-- The graph, if there is one and it has nodes. -/
def present? (g : Option Graph) : Option Graph := g.filter fun g => !g.isEmpty

/-- The difference of two graphs, either of which may be absent. -/
def between (first second : Option Graph) (includeCommon : Bool) : Difference :=
  match present? first, present? second with
  | none, none => unchanged .empty
  | none, some g => unchanged g
  | some g, none => unchanged g
  | some a, some b => ofGraphs a b includeCommon

/-- Whether nothing is drawn. -/
def isEmpty (d : Difference) : Bool := d.graph.nodeCount == 0 && d.graph.edgeCount == 0

/-- Whether anything was added or removed. -/
def hasChanges (d : Difference) : Bool :=
  !(d.addedNodes.isEmpty && d.removedNodes.isEmpty && d.addedEdges.isEmpty &&
    d.removedEdges.isEmpty)

end Difference

end GraphCompare
