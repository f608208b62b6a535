import GraphCompare.Value

/-!
# Labels

Graphs that were exported separately have no ids in common, so their nodes and edges are compared by
label. The label of a node or an edge is the text of the first attribute of a fixed chain that is
present and not null; without one it is the empty text.
-/

namespace GraphCompare

/-- The attributes that give a label, in the order in which they are tried. -/
def labelNames : List String :=
  ["label", "CODE", "SIGNATURE", "METHOD_FULL_NAME", "NAME", "VARIABLE", "labelE"]

namespace Attributes

/-- The text of an attribute that is present and not null. -/
def text? (a : Attributes) (name : String) : Option String :=
  ((a.get? name).filter fun v => !v.isNull).map Value.text

/-- The text of the first attribute of the chain that has one. -/
def label (a : Attributes) : String := (labelNames.findSome? a.text?).getD ""

/-- A bag that holds a label and nothing else. -/
def ofLabel (label : String) : Attributes := empty.insert "label" (.string label)

end Attributes

end GraphCompare
