import GraphCompare.Graph.Query
import GraphCompare.Hash.Fingerprint
import GraphCompare.Text.Quoted

/-!
# Structural hashing

Two graphs of one shape should have one hash, whatever their ids and whatever the order in which
they were built. Every node starts with a label, and a round gives it a new one: the fingerprint of
its own label followed by the labels of its neighbours, in sorted order. A neighbour is a node at
the other end of an edge, whichever way the edge points, once for each edge; an edge from a node to
itself gives one neighbour. After `k` rounds the label of a node depends on nothing but what lies
within `k` steps of it.

`Graph.histories` keeps the labels of every node round by round. `Graph.hash` takes the histogram of
the labels of every round and fingerprints the listing of all of them. Each makes its rounds on its
own (`recordRounds`, `countRounds`).
-/

namespace GraphCompare

/-- The number of rounds where none is given. -/
def defaultRounds : Nat := 3

/-- The length of a fingerprint in bytes where none is given. -/
def defaultDigestSize : Nat := 16

/-- What a structural hash looks at, and how long it is. -/
structure HashOptions where
  /-- The number of rounds. -/
  iterations : Nat := defaultRounds
  /-- The length of a fingerprint in bytes. -/
  digestSize : Nat := defaultDigestSize
  /-- The label a node starts with. -/
  nodeLabel? : Option (Attributes → String) := none
  /-- What an edge puts before the label of a neighbour. -/
  edgeLabel? : Option (Attributes → String) := none

namespace HashOptions

/-- Nodes and edges have the labels of the label chain. -/
def labelled : HashOptions where
  nodeLabel? := some Attributes.label
  edgeLabel? := some Attributes.label

/-- The same options with another number of rounds. -/
def withRounds (o : HashOptions) (rounds : Nat) : HashOptions := { o with iterations := rounds }

/-- The same options with another length of fingerprints. -/
def withDigestSize (o : HashOptions) (size : Nat) : HashOptions := { o with digestSize := size }

@[simp] theorem iterations_withRounds (o : HashOptions) (rounds : Nat) :
    (o.withRounds rounds).iterations = rounds := rfl

/-- What an edge puts before the label of a neighbour, nothing where edges have no labels. -/
def mark (o : HashOptions) (a : Attributes) : String :=
  match o.edgeLabel? with
  | some f => f a
  | none => ""

end HashOptions

/-- How often each label occurs. -/
abbrev Histogram := SortedMap String Nat

/-- Counts the labels of a list. -/
def Histogram.ofLabels (labels : List String) : Histogram :=
  labels.foldl (fun h l => SortedMap.alter h l fun n => n.getD 0 + 1) .empty

/-- A list of labels with their numbers, as it is fingerprinted. -/
def listing (counts : List (String × Nat)) : String :=
  "[" ++ ", ".intercalate (counts.map fun (l, n) =>
    "(" ++ Text.quoted l ++ ", " ++ Decimal.integerText n ++ ")") ++ "]"

namespace Graph

variable (g : Graph) (o : HashOptions)

/-- The neighbours of the node at a position, with the marks of the edges that lead there. -/
def neighbours (i : Nat) : List (Nat × String) :=
  g.arcs.filterMap fun a =>
    if a.source = i then some (a.target, o.mark a.attributes)
    else if a.target = i then some (a.source, o.mark a.attributes)
    else none

/-- The neighbours of every node, by position. -/
def neighbourhood : List (List (Nat × String)) := (List.range g.nodeCount).map (g.neighbours o)

/-- The labels the rounds start from: the node labels; where only edges are labelled, empty labels;
and where nothing is, the degrees. -/
def startLabels : List String :=
  match o.nodeLabel?, o.edgeLabel? with
  | some f, _ => g.nodes.map fun n => f n.attributes
  | none, some _ => g.nodes.map fun _ => ""
  | none, none => g.nodes.map fun n => Decimal.integerText (g.degree n.id)

end Graph

/-- The label of a neighbour as a round sees it. -/
def markedLabel (labels : List String) (neighbour : Nat × String) : String :=
  neighbour.2 ++ (labels[neighbour.1]?).getD ""

/-- The text that a round fingerprints for a node. -/
def roundText (labels : List String) (own : String) (neighbours : List (Nat × String)) : String :=
  own ++ String.join ((neighbours.map (markedLabel labels)).mergeSort)

/-- One round: the new labels of all nodes. -/
def relabel (digestSize : Nat) (hood : List (List (Nat × String))) (labels : List String) :
    List String :=
  List.zipWith (fun own neighbours => fingerprint digestSize (roundText labels own neighbours))
    labels hood

/-- Counts the labels after each of a number of rounds, behind the counts that there are. -/
def countRounds (step : List String → List String) :
    Nat → List String → List (String × Nat) → List (String × Nat)
  | 0, _, counts => counts
  | k + 1, labels, counts =>
    let next := step labels
    countRounds step k next (counts ++ (Histogram.ofLabels next).entries)

/-- Records the labels after each of a number of rounds, each at the end of the history of its
node. -/
def recordRounds (step : List String → List String) :
    Nat → List String → List (List String) → List (List String)
  | 0, _, histories => histories
  | k + 1, labels, histories =>
    let next := step labels
    recordRounds step k next (List.zipWith (fun history l => history ++ [l]) histories next)

namespace Graph

variable (g : Graph) (o : HashOptions)

/-- The label of every node after each round, by id. -/
def histories : SortedMap NodeId (List String) :=
  let start := g.startLabels o
  let recorded := recordRounds (relabel o.digestSize (g.neighbourhood o)) o.iterations start
    (start.map fun _ => [])
  .ofList ((g.nodes.map Node.id).zip recorded)

/-- The label counts that make up the hash: those of the rounds or, where there are none, of the
fingerprints of the labels at the start. -/
def hashedCounts : List (String × Nat) :=
  let start := g.startLabels o
  let first := if o.iterations = 0 then
    (Histogram.ofLabels (start.map (fingerprint o.digestSize))).entries else []
  countRounds (relabel o.digestSize (g.neighbourhood o)) o.iterations start first

/-- The hash of the whole graph. -/
def hash : String := fingerprint o.digestSize (listing (g.hashedCounts o))

end Graph

end GraphCompare
