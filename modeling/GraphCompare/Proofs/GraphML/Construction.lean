import Mathlib
import GraphCompare.GraphML.Reader
import GraphCompare.Proofs.Graph.Listing

/-!
# The graph that a document comes to

The contents of a document, with the defaults of its keys, are a listing of nodes and edges
(`Document.listedNodes`, `Document.listedEdges`). With a graph element the document comes to the
graph of this listing, or to what is wrong with it (`Document.toGraph_eq`); without one there is no
graph.
-/

namespace GraphCompare.GraphML

/-- What comes out of a composition has come out of its first part. -/
theorem ok_of_bind {ε α β : Type} {x : Except ε α} {f : α → Except ε β} {b : β}
    (h : x >>= f = .ok b) : ∃ a, x = .ok a ∧ f a = .ok b := by
  cases x with
  | error e => cases h
  | ok a => exact ⟨a, rfl, h⟩

/-- What can be said of a result is said of one that there is. -/
theorem ok_of_map_toOption {ε α β : Type} {x : Except ε α} {f : α → β} {b : β}
    (h : x.toOption.map f = some b) : ∃ a, x = .ok a ∧ f a = b := by
  cases x with
  | error e => cases h
  | ok a => exact ⟨a, rfl, Option.some_inj.1 h⟩

namespace Document

/-- A document can be read if there is no fault in its markup and its events can be taken. -/
theorem read_eq_ok {text : String} {d : Document} : read text = .ok d ↔
    (Markup.read text).2 = none ∧
      ∃ s, (Markup.read text).1.foldlM Reading.step .initial = .ok s ∧ s.document = d := by
  constructor
  · intro h
    obtain ⟨s, hs, h⟩ := ok_of_bind h
    split at h
    case h_1 => cases h
    case h_2 hfault =>
      cases h
      exact ⟨hfault, s, hs, rfl⟩
  · rintro ⟨hfault, s, hs, rfl⟩
    simp only [read, hs, hfault]
    rfl

variable {d : Document}

/-- The nodes that a document lists, with defaults. -/
def listedNodes (d : Document) : List Node :=
  d.nodes.map fun n => ⟨n.id, withDefaults (d.defaults .node) n.attributes⟩

/-- The edges that a document lists, with defaults. -/
def listedEdges (d : Document) : List (NodeId × NodeId × Attributes) :=
  d.edges.map fun e => (e.source, e.target, withDefaults (d.defaults .edge) e.attributes)

/-- With a graph element, the graph of a document is what its listing makes. -/
theorem toGraph_eq (h : d.sawGraph) :
    d.toGraph = ((Addition.listing d.listedNodes d.listedEdges).foldlM Graph.add .empty).mapError
      .graph := by
  rw [Addition.listing, listedNodes, listedEdges, List.map_map, List.map_map, List.foldlM_append]
  simp only [List.foldlM_map, toGraph, h, Graph.add, Function.comp_apply]
  cases d.nodes.foldlM (fun (g : Graph) n =>
    g.addNode n.id (withDefaults (d.defaults .node) n.attributes)) Graph.empty <;> rfl

/-- Without one there is none. -/
theorem toGraph_of_not_sawGraph (h : d.sawGraph = false) :
    d.toGraph = .error (.content .noGraph) := by
  simp only [toGraph, h]
  rfl

/-- The graph of a document has what the document lists. -/
theorem listed_of_toGraph {g : Graph} (h : d.toGraph = .ok g) :
    d.sawGraph ∧ g.nodes = d.listedNodes ∧ g.edges = numbered 0 d.listedEdges := by
  cases hsaw : d.sawGraph with
  | false =>
    rw [toGraph_of_not_sawGraph hsaw] at h
    cases h
  | true =>
    rw [toGraph_eq hsaw] at h
    have made := Graph.foldlM_listing d.listedNodes d.listedEdges
    cases hfault : listingFault? d.listedNodes d.listedEdges with
    | some e =>
      rw [hfault] at made
      rw [made] at h
      cases h
    | none =>
      rw [hfault] at made
      obtain ⟨k, hk, nodes, edges⟩ := made
      rw [hk] at h
      cases h
      exact ⟨rfl, nodes, edges⟩

end Document

end GraphCompare.GraphML
