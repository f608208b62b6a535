import GraphCompare.GraphML.Key
import GraphCompare.Graph.Basic
import GraphCompare.Markup.Event
import GraphCompare.Markup.Reference

/-!
# The contents of a GraphML document

What a document says about a graph, once its markup has been read: the keys by id, the records of
the nodes and the edges in the order of the document, and whether there is a graph at all. The graph
is made of all of it at the end (`Document.toGraph`): records get the defaults of the keys for
attributes they lack, then the nodes are added and then the edges. So an edge may stand before the
nodes it joins.
-/

namespace GraphCompare.GraphML

/-- The record of a node. -/
structure NodeRecord where
  id : NodeId
  attributes : Attributes

/-- The record of an edge. -/
structure EdgeRecord where
  source : NodeId
  target : NodeId
  attributes : Attributes

/-- The contents of a document. -/
structure Document where
  keys : SortedMap String KeySpec
  nodes : List NodeRecord
  edges : List EdgeRecord
  sawGraph : Bool

/-- Why no graph could be read. -/
inductive ReadError where
  | markup (position : Nat) (fault : Markup.Fault)
  | reference (fault : Markup.ReferenceFault)
  | content (fault : StructureFault)
  | graph (error : GraphError)
deriving DecidableEq

/-- The words of an error. -/
def ReadError.message : ReadError → String
  | markup position fault =>
    "XML error: at position " ++ Decimal.integerText position ++ ": " ++ fault.message
  | reference fault => "XML error: " ++ fault.message
  | content fault => "invalid GraphML: " ++ fault.message
  | graph error => error.message

namespace Document

/-- A document of which nothing has been read. -/
def empty : Document := ⟨.empty, [], [], false⟩

/-- The default values of the keys that belong to the elements of a domain. -/
def defaults (d : Document) (domain : Domain) : List (String × OrderedValue) :=
  d.keys.entries.filterMap fun (_, k) =>
    if k.domain.covers domain then k.default?.map fun v => (k.name, v) else none

/-- Attributes with values for those that have none. -/
def withDefaults (defaults : List (String × OrderedValue)) (a : Attributes) : Attributes :=
  defaults.foldl (fun a e => a.insertIfNew e.1 e.2) a

/-- The graph of the document. -/
def toGraph (d : Document) : Except ReadError Graph := do
  if !d.sawGraph then throw (.content .noGraph)
  let nodeDefaults := d.defaults .node
  let edgeDefaults := d.defaults .edge
  let withNodes ← (d.nodes.foldlM (fun (g : Graph) n =>
    g.addNode n.id (withDefaults nodeDefaults n.attributes)) Graph.empty).mapError .graph
  (d.edges.foldlM (fun (g : Graph) e =>
    g.addEdge e.source e.target (withDefaults edgeDefaults e.attributes)) withNodes).mapError .graph

end Document

end GraphCompare.GraphML
