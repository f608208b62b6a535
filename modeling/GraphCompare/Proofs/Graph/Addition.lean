import Mathlib
import GraphCompare.Proofs.Graph.Incidence

/-!
# What an addition needs and what it changes

Ids, nodes and positions are looked up in one list of nodes, in which no id comes twice; so what one
look-up finds determines the others (`Graph.contains_iff`, `Graph.node?_eq_some_iff`,
`Graph.position?_eq_none_iff`). An addition is refused exactly if its id is taken
(`Graph.addNode_eq_error_iff`) or an end is missing, the source before the target
(`Graph.addEdge_eq_error_iff`). A node that is added changes no edge
(`Graph.edges_of_nodes_append`), and an edge that is added comes last, with the number of the edges
before it (`Graph.edges_of_addEdge`).
-/

namespace GraphCompare.Graph

variable {g h : Graph} {id source target : NodeId} {a : Attributes}

/-! ## Looking up an id -/

/-- An id is contained exactly if a node has it. -/
theorem contains_iff : g.contains id ↔ id ∈ g.nodes.map Node.id := by
  constructor
  · exact mem_ids_of_contains
  · intro hm
    by_contra hc
    exact not_mem_ids_of_not_contains (Bool.eq_false_iff.2 hc) hm

theorem contains_eq_false_iff : g.contains id = false ↔ id ∉ g.nodes.map Node.id := by
  rw [← contains_iff, Bool.not_eq_true]

/-- The node that an id is looked up to is the one that has it. -/
theorem node?_eq_some_iff {n : Node} : g.node? id = some n ↔ n ∈ g.nodes ∧ n.id = id := by
  constructor
  · intro hn
    exact ⟨List.mem_of_find?_eq_some hn, by simpa using List.find?_some hn⟩
  · rintro ⟨hn, rfl⟩
    have found : (g.node? n.id).isSome := contains_iff.2 (List.mem_map_of_mem hn)
    obtain ⟨m, hm⟩ := Option.isSome_iff_exists.1 found
    have hid : m.id = n.id := by simpa using List.find?_some hm
    rw [hm, List.inj_on_of_nodup_map g.nodup_ids (List.mem_of_find?_eq_some hm) hn hid]

theorem idAt_mem {i : ℕ} (hi : i < g.nodes.length) : g.idAt i ∈ g.nodes.map Node.id := by
  rw [g.idAt_eq ⟨i, hi⟩]
  exact List.mem_map_of_mem (g.nodes.get_mem _)

theorem position?_eq_none_iff : g.position? id = none ↔ id ∉ g.nodes.map Node.id := by
  rw [position?, List.findIdx?_eq_none_iff, List.mem_map]
  simp

/-- Only the id of a node has a position. -/
theorem mem_ids_of_position? {i : ℕ} (hp : g.position? id = some i) : id ∈ g.nodes.map Node.id := by
  obtain ⟨hi, rfl⟩ := position?_eq_some_iff.1 hp
  exact idAt_mem hi

/-! ## What is refused -/

/-- A node is refused exactly if its id is taken. -/
theorem addNode_eq_error_iff {e : GraphError} :
    g.addNode id a = .error e ↔ id ∈ g.nodes.map Node.id ∧ e = .duplicateNode id := by
  rw [addNode, ← contains_iff]
  split <;> rename_i hc <;> simp [hc, eq_comm]

/-- An end is refused exactly if no node has its id. -/
theorem endpoint_eq_error_iff {e : GraphError} :
    g.endpoint id = .error e ↔ id ∉ g.nodes.map Node.id ∧ e = .unknownNode id := by
  rw [endpoint, ← position?_eq_none_iff]
  split <;> rename_i hp
  · simp [hp]
  · simp [hp, eq_comm]

/-- An edge is refused exactly if an end is missing; the source is looked at first. -/
theorem addEdge_eq_error_iff {e : GraphError} :
    g.addEdge source target a = .error e ↔
      (source ∉ g.nodes.map Node.id ∧ e = .unknownNode source) ∨
        (source ∈ g.nodes.map Node.id ∧ target ∉ g.nodes.map Node.id ∧
          e = .unknownNode target) := by
  rw [← @endpoint_eq_error_iff g source, ← @endpoint_eq_error_iff g target, addEdge]
  cases hs : g.endpoint source with
  | error e' =>
    have missing := (endpoint_eq_error_iff.1 hs).1
    simp [bind, Except.bind, missing]
  | ok s =>
    have found : source ∈ g.nodes.map Node.id := by
      by_contra missing
      rw [endpoint_eq_error_iff.2 ⟨missing, rfl⟩] at hs
      cases hs
    cases ht : g.endpoint target <;> simp [bind, Except.bind, pure, Except.pure, found]

/-- A node under a new id is added. -/
theorem exists_addNode (new : id ∉ g.nodes.map Node.id) (a : Attributes) :
    ∃ h, g.addNode id a = .ok h ∧ h.nodes = g.nodes ++ [⟨id, a⟩] ∧ h.arcs = g.arcs :=
  ⟨g.push id a new, addNode_eq_ok.2 ⟨contains_eq_false_iff.2 new, rfl, rfl⟩, rfl, rfl⟩

/-- An edge between nodes that are there is added. -/
theorem exists_addEdge (hs : source ∈ g.nodes.map Node.id) (ht : target ∈ g.nodes.map Node.id)
    (a : Attributes) : ∃ h, g.addEdge source target a = .ok h := by
  cases hadd : g.addEdge source target a with
  | ok h => exact ⟨h, rfl⟩
  | error e =>
    rcases addEdge_eq_error_iff.1 hadd with ⟨missing, -⟩ | ⟨-, missing, -⟩
    · exact absurd hs missing
    · exact absurd ht missing

/-! ## What is changed -/

/-- A node that is added changes no id before it. -/
theorem idAt_of_nodes_append {more : List Node} (nodes : h.nodes = g.nodes ++ more) {i : ℕ}
    (hi : i < g.nodes.length) : h.idAt i = g.idAt i := by
  rw [idAt, idAt, nodes, List.getElem?_append_left hi]

/-- Arcs show the same edges when nodes are added. -/
theorem edges_of_nodes_append {more : List Node} (nodes : h.nodes = g.nodes ++ more)
    (arcs : h.arcs = g.arcs) : h.edges = g.edges := by
  rw [edges, edges, arcs]
  refine List.map_congr_left fun e he => ?_
  have inside := g.arcs_inside e.1 (List.fst_mem_of_mem_zipIdx he)
  simp only [idAt_of_nodes_append nodes inside.1, idAt_of_nodes_append nodes inside.2]

/-- An edge that is added comes last, with the number of the edges before it. -/
theorem edges_of_addEdge (hadd : g.addEdge source target a = .ok h) :
    h.edges = g.edges ++ [⟨⟨.ofNat g.edgeCount⟩, source, target, a⟩] := by
  obtain ⟨s, t, hs, ht, nodes, arcs⟩ := addEdge_eq_ok.1 hadd
  have ids : h.idAt = g.idAt := by
    funext i
    rw [idAt, idAt, nodes]
  rw [edges, edges, arcs, ids, List.zipIdx_append, List.map_append]
  simp [(position?_eq_some_iff.1 hs).2, (position?_eq_some_iff.1 ht).2, edgeCount]

end GraphCompare.Graph
