import GraphCompare.Graph.Basic

/-!
# Graphs in the DOT language

A graph is written as one line for each node, by position, and then one for each edge. Both show the
label. A quote or a backslash in a label has a backslash before it and the end of a line becomes a
backslash and `l`, so a label stays on its line and inside its quotes.
-/

namespace GraphCompare.Graph

/-- One character of a label inside quotes. -/
def dotChar : Char → List Char
  | '"' => ['\\', '"']
  | '\\' => ['\\', '\\']
  | '\n' => ['\\', 'l']
  | c => [c]

/-- The attribute list that shows a label. -/
def dotLabel (label : String) : String :=
  " [ label = \"" ++ String.ofList (label.toList.flatMap dotChar) ++ "\" ]"

/-- The line of a node. -/
def dotNode (position : Nat) (n : Node) : String :=
  "    " ++ Decimal.integerText position ++ dotLabel n.label ++ "\n"

/-- The line of an edge. -/
def dotEdge (a : Arc) : String :=
  "    " ++ Decimal.integerText a.source ++ " -> " ++ Decimal.integerText a.target ++
    dotLabel a.label ++ "\n"

/-- The whole graph. -/
def dot (g : Graph) : String :=
  "digraph \x7b\n" ++ String.join (g.nodes.zipIdx.map fun (n, i) => dotNode i n) ++
    String.join (g.arcs.map dotEdge) ++ "\x7d\n"

end GraphCompare.Graph
