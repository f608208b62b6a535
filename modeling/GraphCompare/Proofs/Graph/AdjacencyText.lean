import Mathlib
import GraphCompare.Proofs.Graph.Adjacency
import GraphCompare.Proofs.Json.Form

/-!
# The text of an adjacency

What an adjacency holds between two nodes are the attributes of edges (`Adjacency.Shows.mem_bags`).
If no edge has a floating point number among them, the adjacency is faithful
(`Graph.faithful_adjacency`), because lists and maps of faithful values are. So neither the
adjacency nor its text loses anything (`Graph.lossless_adjacency`). A floating point number that is
not finite is written as `null`, so it would not come back.
-/

namespace GraphCompare

/-- What an adjacency holds are the attributes of edges. -/
theorem Adjacency.Shows.mem_bags {m : Adjacency} {g : Graph} (shows : m.Shows g)
    {under : NodeId × SortedMap NodeId (List Attributes)} (hs : under ∈ m.entries)
    {between : NodeId × List Attributes} (ht : between ∈ under.2.entries) {a : Attributes}
    (ha : a ∈ between.2) : ∃ e ∈ g.edges, e.attributes = a := by
  have targets : SortedMap.get? m under.1 = some under.2 := m.increasing.mem_iff_lookup.1 hs
  have bags : under.2.get? between.1 = some between.2 := under.2.increasing.mem_iff_lookup.1 ht
  rw [shows.bags _ _ targets _ _ bags] at ha
  obtain ⟨e, he, rfl⟩ := List.mem_map.1 ha
  exact ⟨e, List.mem_of_mem_filter he, rfl⟩

namespace Graph

/-- The adjacency of a graph without floating point numbers is faithful. -/
theorem faithful_adjacency {g : Graph} (free : ∀ e ∈ g.edges, e.attributes.FloatFree) :
    JsonForm.Faithful g.adjacency := by
  refine .map fun under hs => .map fun between ht => .list fun a ha => .attributes ?_
  obtain ⟨e, he, rfl⟩ := g.shows_adjacency.mem_bags hs ht ha
  exact free e he

/-- **An adjacency and its text lose nothing.** The adjacency of a graph has every node and every
edge. Its text is read back as the same adjacency, if no edge has a floating point number among its
attributes and the text does not nest deeper than 127 brackets. -/
theorem lossless_adjacency (g : Graph) : g.adjacency.Shows g ∧
    ((∀ e ∈ g.edges, e.attributes.FloatFree) → (JsonForm.toJson g.adjacency).depth ≤ 127 →
      readRecord? Adjacency g.adjacency.text = some g.adjacency) :=
  ⟨g.shows_adjacency, fun free shallow => (faithful_adjacency free).readRecord?_pretty shallow⟩

/-- A node with an edge to itself, two edges between the same nodes, and a node without edges. -/
def crowded : Graph where
  nodes := [⟨"a\n", .empty⟩, ⟨"\"b\"", .empty⟩, ⟨"é", .empty⟩]
  arcs := [
    ⟨0, 0, Attributes.empty.insert "low" ⟨.int Int64.minValue, trivial⟩⟩,
    ⟨0, 1, Attributes.empty.insert "" ⟨.list [.null, .bool true, .map []],
      trivial, trivial, ⟨.nil, trivial⟩, trivial⟩⟩,
    ⟨0, 1, .empty⟩]
  nodup_ids := by decide
  arcs_inside := by simp

theorem lossless_adjacency_crowded :
    (∀ e ∈ crowded.edges, e.attributes.FloatFree) ∧
      (JsonForm.toJson crowded.adjacency).depth ≤ 127 ∧
      readRecord? Adjacency crowded.adjacency.text = some crowded.adjacency := by
  have free : ∀ e ∈ crowded.edges, e.attributes.FloatFree := by
    refine List.forall_mem_cons.2 ⟨⟨trivial, trivial⟩, List.forall_mem_cons.2 ⟨?_, ?_⟩⟩
    · exact ⟨⟨trivial, trivial, trivial, trivial⟩, trivial⟩
    · exact List.forall_mem_singleton.2 trivial
  have shallow : (JsonForm.toJson crowded.adjacency).depth ≤ 127 := by decide +kernel
  exact ⟨free, shallow, (lossless_adjacency crowded).2 free shallow⟩

end Graph

end GraphCompare
