import GraphCompare.Summary.Partition

/-!
# The summary of a graph

Nodes that agree in some chosen attributes, and in what they reach over edges of what type, are
drawn as one. The summary of a graph has a supernode for each group of such nodes, with the
attributes that its members share and the list of their ids; and a superedge from one group to
another wherever an edge leads from a member of the one to a member of the other, with the types of
those edges.
-/

namespace GraphCompare

/-- The attributes that a summary goes by. -/
structure SummarySettings where
  nodeAttributes : List String := ["label", "CODE"]
  edgeAttributes : List String := ["label", "CODE"]
deriving DecidableEq

/-- The attributes that a key stands for. -/
def Key.attributes (names : List String) (key : Key) : Attributes :=
  .ofList ((names.zip key).filterMap fun (name, text) => text.map fun s => (name, .string s))

/-- The id of the supernode of a group. -/
def supernodeId (group : Nat) : NodeId := "Supernode-" ++ Decimal.integerText group

namespace Graph

variable (g : Graph) (s : SummarySettings)

/-- The edges with their types. -/
def typedArcs : List TypedArc :=
  g.arcs.map fun a => ⟨a.source, a.target, a.attributes.key s.edgeAttributes⟩

/-- The partition of the nodes that a summary draws. -/
def partition : Partition :=
  .refine (g.typedArcs s) (g.nodes.map fun n => n.attributes.key s.nodeAttributes)

/-- The attributes of the supernode of a group: those that its first member has, which they all
share, and the ids of the members. -/
def supernode (members : List Node) : Attributes :=
  let shared : Attributes := match members with
    | [] => .empty
    | first :: _ => Key.attributes s.nodeAttributes (first.attributes.key s.nodeAttributes)
  shared.insert "group" (.list (members.map fun n => .string n.id))

/-- The types of the edges between groups. -/
def superedges : SortedMap (Nat × Nat) (SortedSet Key) :=
  let p := g.partition s
  (g.typedArcs s).foldl (fun m a =>
    m.alter (p.groupOf a.source, p.groupOf a.target) fun types =>
      (types.getD .empty).insert a.type) .empty

/-- The attributes of a superedge. -/
def superedge (types : SortedSet Key) : Attributes :=
  Attributes.empty.insert "types"
    (.list (types.toList.map fun k => (Key.attributes s.edgeAttributes k).toValue))

/-- The summary of the graph. -/
def summary : Graph :=
  let p := g.partition s
  let supernodes := (List.range p.groupCount).foldl (fun h group =>
    let members := (p.members group).filterMap (g.nodes[·]?)
    h.ensureNode (supernodeId group) (supernode s members)) .empty
  (g.superedges s).entries.foldl (fun h ((source, target), types) =>
    match h.addEdge (supernodeId source) (supernodeId target) (superedge s types) with
    | .ok h => h
    | .error _ => h) supernodes

end Graph

end GraphCompare
