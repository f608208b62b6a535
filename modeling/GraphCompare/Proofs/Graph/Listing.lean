import Mathlib
import GraphCompare.Proofs.Graph.History

/-!
# Graphs from lists of nodes and edges

A document, or whoever copies a graph, adds a list of nodes and then a list of edges. Such a listing
is refused with the first id that comes a second time, or else with the first end that no node has
(`listingFault?`). If there is no such id and no such end, the graph has exactly the nodes and the
edges that are listed, the edges numbered from zero (`Graph.foldlM_listing`). Every graph comes from
the list of its own nodes and edges (`Graph.ofHistory_listing`).
-/

namespace GraphCompare

/-! ## What is wrong with a listing -/

/-- The first element that has come before. -/
def firstRepeated? {α : Type} [DecidableEq α] (l : List α) : Option α :=
  (l.zipIdx.find? fun (x, i) => x ∈ l.take i).map Prod.fst

theorem firstRepeated?_concat {α : Type} [DecidableEq α] (l : List α) (x : α) :
    firstRepeated? (l ++ [x]) = (firstRepeated? l).or (if x ∈ l then some x else none) := by
  have earlier : (l.zipIdx.find? fun (y, i) => y ∈ (l ++ [x]).take i) =
      l.zipIdx.find? fun (y, i) => y ∈ l.take i := by
    refine List.find?_congr fun ⟨y, i⟩ hi => ?_
    have hlt := (List.mem_zipIdx hi).2.1
    simp only [Nat.zero_add] at hlt
    simp only [List.take_append_of_le_length hlt.le]
  have whole : (l ++ [x]).take l.length = l := List.take_left
  rw [firstRepeated?, firstRepeated?, List.zipIdx_append, List.find?_append, earlier, Option.map_or]
  simp only [List.zipIdx_singleton, Nat.zero_add, List.find?_cons, List.find?_nil, whole]
  by_cases hx : x ∈ l <;> simp [hx]

/-- Nothing is repeated in a list without repetition. -/
theorem firstRepeated?_eq_none_iff {α : Type} [DecidableEq α] {l : List α} :
    firstRepeated? l = none ↔ l.Nodup := by
  induction l using List.reverseRecOn with
  | nil => simp [firstRepeated?]
  | append_singleton l x ih =>
    rw [firstRepeated?_concat, Option.or_eq_none_iff, ih, ite_eq_right_iff, List.nodup_append]
    simp [imp_not_comm]

/-- The end of an edge that is not known; the source is looked at first. -/
def missingEnd? (known : List NodeId) (source target : NodeId) : Option NodeId :=
  if source ∉ known then some source
  else if target ∉ known then some target
  else none

/-- What is wrong with a list of nodes and a list of edges, if anything is: an id that is repeated,
or else an end that is missing. -/
def listingFault? (nodes : List Node) (edges : List (NodeId × NodeId × Attributes)) :
    Option GraphError :=
  ((firstRepeated? (nodes.map Node.id)).map GraphError.duplicateNode).or
    ((edges.findSome? fun e => missingEnd? (nodes.map Node.id) e.1 e.2.1).map
      GraphError.unknownNode)

/-- The additions that list nodes and then edges. -/
def Addition.listing (nodes : List Node) (edges : List (NodeId × NodeId × Attributes)) :
    List Addition :=
  (nodes.map fun n => .addNode n.id n.attributes) ++
    edges.map fun e => .addEdge e.1 e.2.1 e.2.2

/-- Edges with their numbers, counted from the first. -/
def numbered (first : ℕ) (edges : List (NodeId × NodeId × Attributes)) : List Edge :=
  (edges.zipIdx first).map fun (e, k) => ⟨⟨.ofNat k⟩, e.1, e.2.1, e.2.2⟩

/-- What does not depend on the numbers is the same without them. -/
theorem map_numbered {α : Type} {f : Edge → α} {k : NodeId × NodeId × Attributes → α}
    (hf : ∀ e id, f ⟨id, e.1, e.2.1, e.2.2⟩ = k e) (first : ℕ)
    (edges : List (NodeId × NodeId × Attributes)) : (numbered first edges).map f = edges.map k := by
  rw [numbered, List.map_map]
  conv_rhs => rw [← List.zipIdx_map_fst first edges, List.map_map]
  exact List.map_congr_left fun e _ => hf _ _

namespace Graph

/-! ## What a listing makes -/

/-- Nodes are added until an id comes a second time. -/
theorem foldlM_addNode (nodes : List Node) :
    match firstRepeated? (nodes.map Node.id) with
    | some id => (nodes.map fun n => Addition.addNode n.id n.attributes).foldlM add empty =
        .error (.duplicateNode id)
    | none => ∃ g, (nodes.map fun n => Addition.addNode n.id n.attributes).foldlM add empty =
        .ok g ∧ g.nodes = nodes ∧ g.arcs = [] := by
  induction nodes using List.reverseRecOn with
  | nil => exact ⟨empty, rfl, rfl, rfl⟩
  | append_singleton nodes n ih =>
    simp only [List.map_append, List.map_cons, List.map_nil, firstRepeated?_concat,
      List.foldlM_append] at ih ⊢
    cases hrepeated : firstRepeated? (nodes.map Node.id) with
    | some id =>
      rw [hrepeated] at ih
      simp only [ih, Option.some_or]
      rfl
    | none =>
      rw [hrepeated] at ih
      obtain ⟨g, hg, hnodes, harcs⟩ := ih
      simp only [hg, Option.none_or]
      by_cases hid : n.id ∈ nodes.map Node.id
      · have refused : g.addNode n.id n.attributes = .error (.duplicateNode n.id) :=
          addNode_eq_error_iff.2 ⟨hnodes ▸ hid, rfl⟩
        simp [hid, add, refused, bind, Except.bind]
      · obtain ⟨h, hadd, hn, ha⟩ := exists_addNode (hnodes ▸ hid) n.attributes
        rw [if_neg hid]
        refine ⟨h, ?_, hn.trans (by rw [hnodes]), ha.trans harcs⟩
        simp [add, hadd, bind, Except.bind, pure, Except.pure]

/-- Edges are added until an end is missing. -/
theorem foldlM_addEdge (edges : List (NodeId × NodeId × Attributes)) (g : Graph) :
    match edges.findSome? fun e => missingEnd? (g.nodes.map Node.id) e.1 e.2.1 with
    | some id => (edges.map fun e => Addition.addEdge e.1 e.2.1 e.2.2).foldlM add g =
        .error (.unknownNode id)
    | none => ∃ h, (edges.map fun e => Addition.addEdge e.1 e.2.1 e.2.2).foldlM add g = .ok h ∧
        h.nodes = g.nodes ∧ h.edges = g.edges ++ numbered g.edgeCount edges := by
  induction edges generalizing g with
  | nil => exact ⟨g, rfl, rfl, by simp [numbered]⟩
  | cons e rest ih =>
    rw [List.map_cons, List.foldlM_cons, List.findSome?_cons]
    cases hadd : g.add (.addEdge e.1 e.2.1 e.2.2) with
    | error fault =>
      rcases addEdge_eq_error_iff.1 hadd with ⟨hs, rfl⟩ | ⟨hs, ht, rfl⟩
      · simp only [missingEnd?, hs, not_false_eq_true, if_true]
        rfl
      · simp only [missingEnd?, hs, ht, not_true_eq_false, not_false_eq_true, if_true, if_false]
        rfl
    | ok h =>
      obtain ⟨s, t, hs, ht, hnodes, harcs⟩ := addEdge_eq_ok.1 hadd
      have found : missingEnd? (g.nodes.map Node.id) e.1 e.2.1 = none := by
        simp only [missingEnd?, mem_ids_of_position? hs, mem_ids_of_position? ht,
          not_true_eq_false, if_false]
      have numbers : h.edges ++ numbered h.edgeCount rest =
          g.edges ++ numbered g.edgeCount (e :: rest) := by
        have count : h.edgeCount = g.edgeCount + 1 := by simp [edgeCount, harcs]
        rw [edges_of_addEdge hadd, count, List.append_assoc]
        rfl
      have later := ih h
      rw [hnodes, numbers] at later
      simp only [found]
      exact later

/-- **A graph from a listing.** If an id is repeated or an end is missing, the listing is refused
with the first such id, repeated ids before missing ends; otherwise the graph has the nodes and the
edges that are listed, in their order, and the edges are numbered from zero. -/
theorem foldlM_listing (nodes : List Node) (edges : List (NodeId × NodeId × Attributes)) :
    match listingFault? nodes edges with
    | some e => (Addition.listing nodes edges).foldlM add empty = .error e
    | none => ∃ g, (Addition.listing nodes edges).foldlM add empty = .ok g ∧
        g.nodes = nodes ∧ g.edges = numbered 0 edges := by
  rw [Addition.listing, List.foldlM_append]
  have first := foldlM_addNode nodes
  cases hrepeated : firstRepeated? (nodes.map Node.id) with
  | some id =>
    rw [hrepeated] at first
    simp only [listingFault?, hrepeated, Option.map_some, Option.some_or, first]
    rfl
  | none =>
    rw [hrepeated] at first
    obtain ⟨g, hg, hnodes, harcs⟩ := first
    have second := foldlM_addEdge edges g
    rw [hnodes] at second
    simp only [listingFault?, hrepeated, Option.map_none, Option.none_or, hg]
    cases hmissing : edges.findSome? fun e => missingEnd? (nodes.map Node.id) e.1 e.2.1 with
    | some id =>
      rw [hmissing] at second
      exact second
    | none =>
      rw [hmissing] at second
      obtain ⟨h, hh, hn, he⟩ := second
      refine ⟨h, hh, hn, ?_⟩
      rw [he, Graph.edges, edgeCount, harcs]
      rfl

/-! ## The listing of a graph -/

/-- The edges of a graph without their numbers. -/
def links (g : Graph) : List (NodeId × NodeId × Attributes) :=
  g.edges.map fun e => (e.source, e.target, e.attributes)

variable {g h : Graph}

theorem links_eq (g : Graph) :
    g.links = g.arcs.map fun a => (g.idAt a.source, g.idAt a.target, a.attributes) :=
  map_edges fun _ _ _ => rfl

theorem numbered_links : numbered 0 g.links = g.edges := by
  rw [links_eq, numbered, List.zipIdx_map, List.map_map]
  rfl

/-- An arc joins the positions of the ends of its edge. -/
theorem arcs_eq : g.arcs = g.edges.map fun e =>
    ⟨(g.position? e.source).getD 0, (g.position? e.target).getD 0, e.attributes⟩ := by
  have arc : ∀ a ∈ g.arcs, ∀ _ : EdgeId, Arc.mk ((g.position? (g.idAt a.source)).getD 0)
      ((g.position? (g.idAt a.target)).getD 0) a.attributes = id a := by
    intro a ha _
    have inside := g.arcs_inside a ha
    rw [position?_idAt inside.1, position?_idAt inside.2]
    rfl
  exact ((map_edges arc).trans (List.map_id _)).symm

/-- Graphs with the same nodes and the same edges are the same. -/
theorem eq_of_edges (nodes : g.nodes = h.nodes) (edges : g.edges = h.edges) : g = h := by
  have position : g.position? = h.position? := by
    funext id
    rw [position?, position?, nodes]
  exact Graph.ext nodes (by rw [arcs_eq, edges, position, ← arcs_eq])

/-- Nothing is wrong with the listing of a graph. -/
theorem listingFault?_links (g : Graph) : listingFault? g.nodes g.links = none := by
  rw [listingFault?, firstRepeated?_eq_none_iff.2 g.nodup_ids, Option.map_none, Option.none_or,
    Option.map_eq_none_iff, List.findSome?_eq_none_iff]
  intro e he
  obtain ⟨a, ha, rfl⟩ := List.mem_map.1 (links_eq g ▸ he)
  have inside := g.arcs_inside a ha
  simp only [missingEnd?, idAt_mem inside.1, idAt_mem inside.2, not_true_eq_false, if_false]

/-- Every graph is made by adding its nodes and then its edges. -/
theorem ofHistory_listing (g : Graph) : ofHistory (Addition.listing g.nodes g.links) = g := by
  have made := foldlM_listing g.nodes g.links
  rw [listingFault?_links] at made
  obtain ⟨h, hh, nodes, edges⟩ := made
  rw [ofHistory, foldl_after_of_foldlM hh]
  exact eq_of_edges nodes (edges.trans numbered_links)

end Graph

end GraphCompare
