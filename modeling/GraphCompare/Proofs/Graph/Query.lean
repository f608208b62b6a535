import Mathlib
import GraphCompare.Edit.Profile
import GraphCompare.Proofs.Graph.Chains
import GraphCompare.Proofs.Graph.History

/-!
# What the questions about edges answer

The edges of a graph can be found in three ways: in the list of all edges, with the ids of their
ends; between positions, as the arcs of which the edit distance counts degrees; and by chains, which
lead at each position from the newest edge there to the next older one.

The questions answer the same (`Graph.AnswersEdges`): an answer has the edges with a given end, and
the chain at the node leads along their numbers (`Graph.finds_filter`, by `Chains.leads_ofEnds`);
degrees count the ends of arcs (`Graph.degree_eq_profile`), two for each edge (`Graph.sum_degree`).
-/

namespace GraphCompare

namespace Graph

variable {g : Graph}

/-! ## The edges at a node -/

/-- An answer has the edges with a given end, each once and the newest one first: their numbers are
falling, they are the places of these edges among all edges, and the chain at the node leads along
them. -/
structure Finds (g : Graph) (idOf : Edge → NodeId) (positionOf : Arc → ℕ) (id : NodeId)
    (answer : List Edge) (numbers : List ℕ) : Prop where
  falling : numbers.Pairwise (· > ·)
  complete : ∀ k, k ∈ numbers ↔ ∃ e, g.edges[k]? = some e ∧ idOf e = id
  found : answer.map some = numbers.map (g.edges[·]?)
  chained : ∀ i, g.position? id = some i → (Chains.ofEnds (g.arcs.map positionOf)).Leads
    ((Chains.ofEnds (g.arcs.map positionOf)).newest i) numbers

/-- If the ends of edges are at the positions of the ends of arcs, what is chosen by the one is
found by the other. -/
theorem finds_filter {idOf : Edge → NodeId} {positionOf : Arc → ℕ}
    (inside : ∀ a ∈ g.arcs, positionOf a < g.nodes.length)
    (agree : g.edges.map idOf = g.arcs.map fun a => g.idAt (positionOf a)) (id : NodeId) :
    g.Finds idOf positionOf id (g.edges.filter (idOf · == id)).reverse
      (placesOf (g.edges.map idOf) id) where
  falling := pairwise_placesOf
  complete k := by
    rw [mem_placesOf, List.getElem?_map, Option.map_eq_some_iff]
  found := map_some_reverse_filter idOf g.edges id
  chained i hi := by
    obtain ⟨hlt, rfl⟩ := position?_eq_some_iff.1 hi
    have same : placesOf (g.edges.map idOf) (g.idAt i) = placesOf (g.arcs.map positionOf) i := by
      rw [agree]
      refine placesOf_congr (by simp) fun k => ?_
      rw [List.getElem?_map, List.getElem?_map, Option.map_eq_some_iff, Option.map_eq_some_iff]
      refine exists_congr fun a => and_congr_right fun ha => ?_
      have position := inside a (List.mem_of_getElem? ha)
      constructor
      · intro hid
        exact Option.some_inj.1 ((position?_idAt position).symm.trans (hid ▸ position?_idAt hlt))
      · intro hp
        rw [hp]
    rw [same]
    exact Chains.leads_ofEnds _ i

theorem finds_edgesFrom (g : Graph) (id : NodeId) : g.Finds Edge.source Arc.source id
    (g.edgesFrom id) (placesOf (g.edges.map Edge.source) id) :=
  edgesFrom_eq_filter (g := g) id ▸
    finds_filter (fun a ha => (g.arcs_inside a ha).1) (map_edges fun _ _ _ => rfl) id

theorem finds_edgesTo (g : Graph) (id : NodeId) : g.Finds Edge.target Arc.target id
    (g.edgesTo id) (placesOf (g.edges.map Edge.target) id) :=
  edgesTo_eq_filter (g := g) id ▸
    finds_filter (fun a ha => (g.arcs_inside a ha).2) (map_edges fun _ _ _ => rfl) id

theorem mem_edgesFrom {id : NodeId} {e : Edge} :
    e ∈ g.edgesFrom id ↔ e ∈ g.edges ∧ e.source = id := by
  rw [edgesFrom_eq_filter, List.mem_reverse, List.mem_filter, beq_iff_eq]

/-- An edge that is asked for by ends and label is there if one of all edges has them. -/
theorem hasEdge_iff {source target : NodeId} {label : String} :
    g.hasEdge source target label ↔
      ∃ e ∈ g.edges, e.source = source ∧ e.target = target ∧ e.label = label := by
  simp only [hasEdge, List.any_eq_true, mem_edgesFrom, Bool.and_eq_true, beq_iff_eq, and_assoc]

/-! ## Degrees -/

/-- The degree counts the edges that leave and the edges that reach a node. -/
theorem degree_eq_countP (g : Graph) (id : NodeId) : g.degree id =
    g.edges.countP (·.source = id) + g.edges.countP (·.target = id) := by
  simp only [degree, edgesFrom_eq_filter, edgesTo_eq_filter, List.length_reverse,
    ← List.countP_eq_length_filter, Bool.beq_eq_decide_eq]

/-- The edit distance sees the same degree at the position of a node. -/
theorem degree_eq_profile {id : NodeId} {i : ℕ} (hi : g.position? id = some i) :
    g.degree id = (Profile.ofGraph g).degree i := by
  obtain ⟨hlt, rfl⟩ := position?_eq_some_iff.1 hi
  rw [g.idAt_eq ⟨i, hlt⟩, degree, length_edgesFrom, length_edgesTo, Profile.degree,
    ← List.countP_eq_length_filter, ← List.countP_eq_length_filter, Profile.ofGraph,
    List.countP_map, List.countP_map]
  rfl

/-- No edge has an end at an id without a node. -/
theorem degree_of_not_contains {id : NodeId} (missing : g.contains id = false) :
    g.degree id = 0 := by
  have ends : ∀ e ∈ g.edges, e.source ≠ id ∧ e.target ≠ id := by
    intro e he
    obtain ⟨k, rfl⟩ := mem_edges.1 he
    constructor <;> rintro rfl <;>
      exact contains_eq_false_iff.1 missing (List.mem_map_of_mem (List.get_mem ..))
  rw [degree_eq_countP, List.countP_eq_zero.2, List.countP_eq_zero.2]
  · exact fun e he => by simpa using (ends e he).2
  · exact fun e he => by simpa using (ends e he).1

/-- An arc has two ends. -/
theorem sum_endsAt_eq_two {a : Arc} {n : ℕ} (inside : a.source < n ∧ a.target < n) :
    ∑ i : Fin n, a.endsAt i = 2 := by
  have once : ∀ j < n, ∑ i : Fin n, (if j = (i : ℕ) then 1 else 0) = 1 := by
    intro j hj
    rw [Finset.sum_eq_single_of_mem ⟨j, hj⟩ (Finset.mem_univ _)]
    · exact if_pos rfl
    · intro i _ hi
      exact if_neg fun same => hi (Fin.ext same.symm)
  simp only [Arc.endsAt, Finset.sum_add_distrib, once _ inside.1, once _ inside.2]

/-- The degrees of all nodes count every edge twice. -/
theorem sum_degree (g : Graph) : (g.nodes.map fun n => g.degree n.id).sum = 2 * g.edgeCount := by
  have twice : ∀ arcs : List Arc,
      (∀ a ∈ arcs, a.source < g.nodes.length ∧ a.target < g.nodes.length) →
      ∑ i : Fin g.nodes.length, (arcs.map fun a => a.endsAt i).sum = 2 * arcs.length := by
    intro arcs inside
    induction arcs with
    | nil => simp
    | cons a rest ih =>
      simp only [List.map_cons, List.sum_cons, Finset.sum_add_distrib]
      rw [sum_endsAt_eq_two (inside a List.mem_cons_self),
        ih fun b hb => inside b (List.mem_cons_of_mem _ hb), List.length_cons]
      omega
  calc (g.nodes.map fun n => g.degree n.id).sum
      = ∑ i : Fin g.nodes.length, g.degree (g.node i).id := by
        rw [← Fin.sum_univ_fun_getElem]
        rfl
    _ = ∑ i : Fin g.nodes.length, (g.arcs.map fun a => a.endsAt i).sum :=
        Finset.sum_congr rfl fun i _ => degree_eq_sum i
    _ = 2 * g.edgeCount := twice g.arcs g.arcs_inside

/-! ## All questions -/

/-- The questions about the edges of a graph agree with the list of its edges. -/
structure AnswersEdges (g : Graph) : Prop where
  leaving : ∀ s, ∃ numbers, g.Finds Edge.source Arc.source s (g.edgesFrom s) numbers
  reaching : ∀ t, ∃ numbers, g.Finds Edge.target Arc.target t (g.edgesTo t) numbers
  /-- An edge from a node to itself counts twice. -/
  degree : ∀ s, g.degree s = g.edges.countP (·.source = s) + g.edges.countP (·.target = s)
  profile : ∀ s i, g.position? s = some i → g.degree s = (Profile.ofGraph g).degree i
  unknown : ∀ s, g.contains s = false → g.degree s = 0
  handshake : (g.nodes.map fun n => g.degree n.id).sum = 2 * g.edgeCount
  hasEdge : ∀ s t l, g.hasEdge s t l ↔ ∃ e ∈ g.edges, e.source = s ∧ e.target = t ∧ e.label = l

/-- **Questions about edges agree with the list of edges.** After any history of additions, the
edges from a node and the edges to it are those of all edges with this end, each once and the newest
one first, as the chains of the node lead along them. The degree of a node counts both, is the
degree that the edit distance goes by, and is zero without a node; all degrees together are twice
the number of edges. And there is an edge with given ends and label if one of all edges is. -/
theorem answersEdges_ofHistory (history : List Addition) : (ofHistory history).AnswersEdges where
  leaving s := ⟨_, finds_edgesFrom _ s⟩
  reaching t := ⟨_, finds_edgesTo _ t⟩
  degree := degree_eq_countP _
  profile _ _ := degree_eq_profile
  unknown _ := degree_of_not_contains
  handshake := sum_degree _
  hasEdge _ _ _ := hasEdge_iff

end Graph

end GraphCompare
