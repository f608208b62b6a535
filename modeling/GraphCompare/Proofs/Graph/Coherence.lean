import Mathlib
import GraphCompare.Difference
import GraphCompare.GraphML.Reader
import GraphCompare.Proofs.Graph.Store
import GraphCompare.Proofs.GraphML.Construction
import GraphCompare.Summary.Basic

/-!
# Graphs are in step with what was asked of them

`Graph.Reflects` is all that holds of a graph after a history of requests: the nodes and edges are
those that were asked for (`Graph.Follows`), ids, positions and edge numbers agree with each other,
and the requests that are refused are those with a taken id or a missing end. It holds of any graph
that a history leads to (`Graph.reflects_ofHistory`). Graphs that are read from a document, that
summarise a graph or that draw a difference come of histories as well (`Graph.MadeBy`), so it holds
of those too: `Graph.reflects_of_few`. There the store that the requests were made to shows the
graph, whatever it is asked (`Store.Keeps.shows`). Edge numbers are words of 64 bits, so the graphs
have to be small enough for their numbers to be told apart.
-/

namespace GraphCompare.Graph

/-- A graph is in step with a history of requests. -/
structure Reflects (g : Graph) (history : List Addition) : Prop extends g.Follows history where
  /-- No id comes twice. -/
  distinct : (g.nodes.map Node.id).Nodup
  /-- Looking up an id finds the node that has it. -/
  node?_iff : ∀ id n, g.node? id = some n ↔ n ∈ g.nodes ∧ n.id = id
  contains_iff : ∀ id, g.contains id ↔ id ∈ g.nodes.map Node.id
  /-- Edges are numbered in their order. -/
  numbers : (g.edges.map fun e => e.id.number.toNat) = List.range g.edgeCount
  /-- An edge lies between the positions of its ends. -/
  positions : (g.edges.map fun e => (g.position? e.source, g.position? e.target)) =
    g.arcs.map fun a => (some a.source, some a.target)
  inside : ∀ a ∈ g.arcs, a.source < g.nodeCount ∧ a.target < g.nodeCount
  /-- A node is refused exactly if its id is taken. -/
  node_refused : ∀ id a e, g.add (.addNode id a) = .error e ↔
    g.contains id ∧ e = .duplicateNode id
  node_ensured : ∀ id a e, g.add (.ensureNode id a) ≠ .error e
  /-- An edge is refused exactly if an end is missing; the source is reported first. -/
  edge_refused : ∀ source target a e, g.add (.addEdge source target a) = .error e ↔
    (¬g.contains source ∧ e = .unknownNode source) ∨
      (g.contains source ∧ ¬g.contains target ∧ e = .unknownNode target)
  /-- What is refused changes nothing. -/
  unchanged : ∀ r e, g.add r = .error e → g.after r = g

/-- The numbers of the edges, counted without bound. -/
theorem numbers_eq_range {g : Graph} (few : g.edgeCount < 2 ^ 32 - 1) :
    (g.edges.map fun e => e.id.number.toNat) = List.range g.edgeCount := by
  have numbers : (g.edges.map fun e => e.id.number.toNat) =
      (List.range g.edgeCount).map fun k => (UInt64.ofNat k).toNat := by
    rw [edges, edgeCount, List.range_eq_range', ← List.zipIdx_map_snd 0 g.arcs, List.map_map,
      List.map_map]
    rfl
  rw [numbers]
  conv_rhs => rw [← List.map_id (List.range g.edgeCount)]
  refine List.map_congr_left fun k hk => ?_
  have := List.mem_range.1 hk
  exact UInt64.toNat_ofNat_of_lt' (by rw [UInt64.size]; omega)

/-- A graph that comes of a history is in step with it. -/
theorem reflects_ofHistory {g : Graph} {history : List Addition} (made : g = ofHistory history)
    (few : g.edgeCount < 2 ^ 32 - 1) : g.Reflects history where
  toFollows := made ▸ follows_ofHistory history
  distinct := g.nodup_ids
  node?_iff _ _ := node?_eq_some_iff
  contains_iff _ := contains_iff
  numbers := numbers_eq_range few
  positions := by
    refine map_edges fun a ha _ => ?_
    have inside := g.arcs_inside a ha
    rw [position?_idAt inside.1, position?_idAt inside.2]
  inside := g.arcs_inside
  node_refused id a e := by
    rw [contains_iff]
    exact addNode_eq_error_iff
  node_ensured _ _ _ := nofun
  edge_refused source target a e := by
    rw [contains_iff, contains_iff]
    exact addEdge_eq_error_iff
  unchanged _ _ := after_of_refused

/-! ## Graphs that the library makes -/

/-- The graph of a document is made of its nodes and then of its edges. -/
theorem eq_ofHistory_toGraph {d : GraphML.Document} {g : Graph} (graph : d.toGraph = .ok g) :
    g = ofHistory (Addition.listing d.listedNodes d.listedEdges) := by
  have saw := (GraphML.Document.listed_of_toGraph graph).1
  rw [GraphML.Document.toGraph_eq saw] at graph
  cases made : (Addition.listing d.listedNodes d.listedEdges).foldlM add empty with
  | error e =>
    rw [made] at graph
    cases graph
  | ok h =>
    rw [made] at graph
    cases graph
    rw [ofHistory, foldl_after_of_foldlM made]

/-- The additions that make a summary: a supernode for each group, and then the superedges. -/
def summaryHistory (g : Graph) (s : SummarySettings) : List Addition :=
  ((List.range (g.partition s).groupCount).map fun group => .ensureNode (supernodeId group)
    (supernode s (((g.partition s).members group).filterMap (g.nodes[·]?)))) ++
  (g.superedges s).entries.map fun e =>
    .addEdge (supernodeId e.1.1) (supernodeId e.1.2) (superedge s e.2)

theorem summary_eq_ofHistory (g : Graph) (s : SummarySettings) :
    g.summary s = ofHistory (g.summaryHistory s) := by
  rw [summaryHistory, ofHistory_append, ofHistory, List.foldl_map, List.foldl_map]
  rfl

/-- The additions that draw a triple. -/
def drawTriple (t : EdgeTriple) : List Addition :=
  [.ensureNode t.source (.ofLabel t.source), .ensureNode t.target (.ofLabel t.target),
    .addEdge t.source t.target (.ofLabel t.label)]

/-- Drawing labels and triples is a history. -/
theorem foldl_addTriple_eq (labels : List String) (triples : List EdgeTriple) :
    triples.foldl addTriple (labels.foldl ensureLabel empty) = ofHistory
      ((labels.map fun l => .ensureNode l (.ofLabel l)) ++ triples.flatMap drawTriple) := by
  rw [ofHistory_append, ofHistory, List.foldl_map, List.foldl_flatMap]
  rfl

/-- The additions that draw a difference: its labels and then its triples, those that were removed
first and the common ones last. -/
def drawingHistory (d : Difference) (includeCommon : Bool) : List Addition :=
  let labels := d.removedNodes.toList.map (signed '-') ++ d.addedNodes.toList.map (signed '+') ++
    if includeCommon then d.commonNodes.toList else []
  let triples := d.removedEdges.toList.map (·.signed '-' d.removedNodes) ++
    d.addedEdges.toList.map (·.signed '+' d.addedNodes) ++
    if includeCommon then d.commonEdges.toList else []
  (labels.map fun l => .ensureNode l (.ofLabel l)) ++ triples.flatMap drawTriple

/-- The additions that make the graph of a difference. A graph that was compared with nothing is
kept as it is. -/
def differenceHistory (first second : Option Graph) (includeCommon : Bool) : List Addition :=
  match Difference.present? first, Difference.present? second with
  | none, none => []
  | none, some g | some g, none => Addition.listing g.nodes g.links
  | some a, some b => drawingHistory (.ofGraphs a b includeCommon) includeCommon

theorem difference_eq_ofHistory (first second : Option Graph) (includeCommon : Bool) :
    (Difference.between first second includeCommon).graph =
      ofHistory (differenceHistory first second includeCommon) := by
  rw [Difference.between, differenceHistory]
  cases Difference.present? first with
  | none =>
    cases Difference.present? second with
    | none => rfl
    | some g => exact (ofHistory_listing g).symm
  | some a =>
    cases Difference.present? second with
    | none => exact (ofHistory_listing a).symm
    | some b => exact foldl_addTriple_eq _ _

/-- A graph that the library has made, with the additions that have made it: read from a document,
or to summarise a graph, or to show a difference. -/
inductive MadeBy : Graph → List Addition → Prop where
  | document {text : String} {d : GraphML.Document} {g : Graph}
    (read : GraphML.Document.read text = .ok d) (graph : d.toGraph = .ok g) :
    MadeBy g (Addition.listing d.listedNodes d.listedEdges)
  | summary (g : Graph) (s : SummarySettings) : MadeBy (g.summary s) (g.summaryHistory s)
  | difference (first second : Option Graph) (includeCommon : Bool) :
    MadeBy (Difference.between first second includeCommon).graph
      (differenceHistory first second includeCommon)

theorem MadeBy.eq_ofHistory {g : Graph} {history : List Addition} (made : g.MadeBy history) :
    g = ofHistory history := by
  cases made with
  | document _ graph => exact eq_ofHistory_toGraph graph
  | summary g s => exact summary_eq_ofHistory g s
  | difference first second includeCommon =>
    exact difference_eq_ofHistory first second includeCommon

/-- **A graph is in step with its history.** Whatever nodes and edges were asked for and in whatever
order, and whatever was refused on the way, a graph of fewer than 2³² - 1 nodes and edges has the
nodes and edges that were asked for, the first node under each id and the edges whose ends were
there, and its ids, positions and edge numbers agree. The store that is asked for them keeps its
index, edge numbers and ends in step: it answers as the graph does, and a refused request gives it
back as it was. The graphs of documents, summaries and differences are in step with the additions
that make them. -/
theorem reflects_of_few (g : Graph)
    (few : g.nodeCount < 2 ^ 32 - 1 ∧ g.edgeCount < 2 ^ 32 - 1) (history : List Addition) :
    (g = ofHistory history ∨ g.MadeBy history) →
      g.Reflects history ∧ (Store.ofHistory history).Shows g := by
  intro origin
  have made : g = ofHistory history := by
    rcases origin with made | made
    · exact made
    · exact made.eq_ofHistory
  exact ⟨reflects_ofHistory made few.2, made ▸ (Store.keeps_ofHistory history).shows⟩

/-- Two functions, of which the second is asked for again when it is there, and edges of which the
first comes before its target. -/
def hasty : List Addition :=
  [.addNode "main" (.ofLabel "main"), .addEdge "main" "step" (.ofLabel "call"),
    .ensureNode "step" (.ofLabel "step"), .ensureNode "step" (.ofLabel "again"),
    .addNode "main" (.ofLabel "other"), .addEdge "main" "step" (.ofLabel "call"),
    .addEdge "step" "step" (.ofLabel "loop")]

/-- The second node keeps its first label, and the first edge is left out and takes no number. -/
theorem reflects_hasty :
    ((ofHistory hasty).nodeCount < 2 ^ 32 - 1 ∧ (ofHistory hasty).edgeCount < 2 ^ 32 - 1) ∧
      (ofHistory hasty).Reflects hasty ∧ (Store.ofHistory hasty).Shows (ofHistory hasty) ∧
      (ofHistory hasty).nodes.map Node.label = ["main", "step"] ∧
      (ofHistory hasty).edges.map Edge.label = ["call", "loop"] ∧
      (Store.ofHistory hasty).allEdges.map (·.id.number) = [0, 1] := by
  have few : (ofHistory hasty).nodeCount < 2 ^ 32 - 1 ∧
      (ofHistory hasty).edgeCount < 2 ^ 32 - 1 := by decide
  obtain ⟨reflects, shows⟩ := reflects_of_few _ few hasty (.inl rfl)
  refine ⟨few, reflects, shows, by decide, by decide, ?_⟩
  rw [shows.edges]
  decide

end GraphCompare.Graph
