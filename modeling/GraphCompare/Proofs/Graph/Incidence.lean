import Mathlib
import GraphCompare.Graph.Query

/-!
# The ends of edges, by position

Positions and edge numbers that are known to be inside the graph are elements of `Fin`, so the node
and the edge there need no further check (`Graph.node`, `Graph.arc`). An edge leads from one
position to another (`Graph.source`, `Graph.target`); where directions do not count it joins an
unordered pair of positions (`Graph.ends`).

Questions about a graph are asked by id and answered at the position of the id. Since ids are
distinct, an end of an edge has an id exactly if it is at the position of that id
(`Graph.idAt_eq_iff`, `Graph.position?_eq_some_iff`). So the edges at a node are those of all edges
with its id (`Graph.edgesAt_eq_filter`), and the degree of a node counts the ends of arcs at its
position (`Graph.degree_eq_sum`) and does not depend on the way an arc points.
-/

namespace GraphCompare

/-- The number of ends that an arc has at a position, two for an arc from the position to itself. -/
def Arc.endsAt (a : Arc) (i : ℕ) : ℕ :=
  (if a.source = i then 1 else 0) + if a.target = i then 1 else 0

namespace Graph

section
variable (g : Graph)

/-- The node at a position. -/
def node (i : Fin g.nodes.length) : Node := g.nodes.get i

variable (k : Fin g.arcs.length)

/-- The edge with a number, between positions. -/
def arc : Arc := g.arcs.get k

/-- The position that the edge with a number leaves. -/
def source : Fin g.nodes.length := ⟨(g.arc k).source, (g.arcs_inside _ (g.arcs.get_mem k)).1⟩

/-- The position that the edge with a number reaches. -/
def target : Fin g.nodes.length := ⟨(g.arc k).target, (g.arcs_inside _ (g.arcs.get_mem k)).2⟩

/-- The two positions that the edge with a number joins, whichever way it points. -/
def ends : Sym2 (Fin g.nodes.length) := s(g.source k, g.target k)

end

section
variable {g : Graph}

/-- Nodes with one id are at one position. -/
theorem id_inj {i j : Fin g.nodes.length} : (g.node i).id = (g.node j).id ↔ i = j := by
  have hi : (i : ℕ) < (g.nodes.map Node.id).length := by simp
  have hj : (j : ℕ) < (g.nodes.map Node.id).length := by simp
  have inj : (g.nodes.map Node.id)[(i : ℕ)] = (g.nodes.map Node.id)[(j : ℕ)] ↔ (i : ℕ) = j :=
    g.nodup_ids.getElem_inj_iff
  rw [List.getElem_map, List.getElem_map, ← Fin.ext_iff] at inj
  exact inj

theorem idAt_eq (i : Fin g.nodes.length) : g.idAt i = (g.node i).id := by
  simp [idAt, node]

/-- A position has the id of a node exactly if it is the position of that node. -/
theorem idAt_eq_iff {i : Fin g.nodes.length} {j : ℕ} (hj : j < g.nodes.length) :
    g.idAt j = (g.node i).id ↔ j = i := by
  have hid : g.idAt j = (g.node ⟨j, hj⟩).id := g.idAt_eq ⟨j, hj⟩
  rw [hid, id_inj, Fin.ext_iff]

/-- What is read off the edges but not from their numbers can be read off the arcs. -/
theorem map_edges {β : Type} {f : Edge → β} {f' : Arc → β}
    (h : ∀ a ∈ g.arcs, ∀ id, f ⟨id, g.idAt a.source, g.idAt a.target, a.attributes⟩ = f' a) :
    g.edges.map f = g.arcs.map f' := by
  conv_rhs => rw [← List.zipIdx_map_fst 0 g.arcs]
  rw [edges, List.map_map, List.map_map]
  refine List.map_congr_left fun e he => ?_
  exact h e.1 (List.fst_mem_of_mem_zipIdx he) _

/-- Edges are counted on arcs, by what does not depend on their numbers. -/
theorem countP_edges {p : Edge → Bool} {p' : Arc → Bool}
    (h : ∀ a ∈ g.arcs, ∀ id, p ⟨id, g.idAt a.source, g.idAt a.target, a.attributes⟩ = p' a) :
    g.edges.countP p = g.arcs.countP p' := by
  have count := congrArg (List.countP id) (map_edges h)
  simpa only [List.countP_map, Function.id_comp] using count

/-- The edges of a graph are those with the numbers of its arcs. -/
theorem mem_edges {e : Edge} : e ∈ g.edges ↔ ∃ k : Fin g.arcs.length,
    Edge.mk ⟨.ofNat k⟩ (g.node (g.source k)).id (g.node (g.target k)).id (g.arc k).attributes =
      e := by
  simp only [← idAt_eq]
  rw [edges, List.mem_map]
  constructor
  · rintro ⟨⟨a, k⟩, ha, rfl⟩
    obtain ⟨hk, ha⟩ := List.getElem?_eq_some_iff.1 (List.mem_zipIdx_iff_getElem?.1 ha)
    dsimp only at hk ha
    subst ha
    exact ⟨⟨k, hk⟩, rfl⟩
  · rintro ⟨k, rfl⟩
    exact ⟨(g.arc k, k), List.mem_zipIdx_iff_getElem?.2 (List.getElem?_eq_getElem k.2), rfl⟩

/-- The position that an id is looked up to is the one that has it. -/
theorem position?_eq_some_iff {id : NodeId} {i : ℕ} :
    g.position? id = some i ↔ i < g.nodes.length ∧ g.idAt i = id := by
  constructor
  · intro hp
    obtain ⟨hi, hid, -⟩ := List.findIdx?_eq_some_iff_getElem.1 hp
    exact ⟨hi, by simpa [idAt, hi] using hid⟩
  · rintro ⟨hi, rfl⟩
    refine List.findIdx?_eq_some_iff_getElem.2 ⟨hi, by simp [idAt, hi], fun j hj => ?_⟩
    have hj' : j < g.nodes.length := hj.trans hi
    have hne : ¬(g.node ⟨j, hj'⟩).id = (g.node ⟨i, hi⟩).id := by
      rw [id_inj, Fin.mk.injEq]
      exact hj.ne
    simpa [idAt, hi, node] using hne

/-- The id at a position is looked up to the position. -/
theorem position?_idAt {i : ℕ} (hi : i < g.nodes.length) : g.position? (g.idAt i) = some i :=
  position?_eq_some_iff.2 ⟨hi, rfl⟩

/-! ## The edges at a node -/

/-- Every arc stands beside the edge that it shows. -/
theorem zip_edges : g.arcs.zip g.edges = g.arcs.zipIdx.map fun e =>
    (e.1, ⟨⟨.ofNat e.2⟩, g.idAt e.1.source, g.idAt e.1.target, e.1.attributes⟩) := by
  conv_lhs => rw [← List.zipIdx_map_fst 0 g.arcs]
  rw [edges, List.zip_map']

/-- The edges with an end at a node are those of all edges with its id there. -/
theorem edgesAt_eq_filter {endOf : Arc → ℕ} {idOf : Edge → NodeId}
    (inside : ∀ a ∈ g.arcs, endOf a < g.nodes.length)
    (agree : ∀ a ∈ g.arcs, ∀ k,
      idOf ⟨k, g.idAt a.source, g.idAt a.target, a.attributes⟩ = g.idAt (endOf a)) (id : NodeId) :
    g.edgesAt endOf id = (g.edges.filter (idOf · == id)).reverse := by
  have ends : ∀ e ∈ g.arcs.zip g.edges, idOf e.2 = g.idAt (endOf e.1) ∧
      endOf e.1 < g.nodes.length := by
    intro e he
    rw [zip_edges] at he
    obtain ⟨x, hx, rfl⟩ := List.mem_map.1 he
    have mem := List.fst_mem_of_mem_zipIdx hx
    exact ⟨agree _ mem _, inside _ mem⟩
  have shown : g.edges = (g.arcs.zip g.edges).map Prod.snd := by
    rw [zip_edges, List.map_map]
    rfl
  rw [edgesAt]
  conv_rhs => rw [shown, List.filter_map, ← List.map_reverse, ← List.filter_reverse]
  cases hp : g.position? id with
  | none =>
    have nowhere : ∀ e ∈ (g.arcs.zip g.edges).reverse, ((idOf · == id) ∘ Prod.snd) e = false := by
      intro e he
      obtain ⟨hid, hlt⟩ := ends e (List.mem_reverse.1 he)
      refine beq_eq_false_iff_ne.2 fun same => ?_
      rw [← same, hid, position?_idAt hlt] at hp
      cases hp
    rw [List.filter_eq_nil_iff.2 fun e he => Bool.eq_false_iff.1 (nowhere e he)]
    rfl
  | some i =>
    obtain ⟨hi, rfl⟩ := position?_eq_some_iff.1 hp
    refine congrArg (List.map Prod.snd) (List.filter_congr fun e he => ?_)
    obtain ⟨hid, hlt⟩ := ends e (List.mem_reverse.1 he)
    have same : idOf e.2 = g.idAt i ↔ endOf e.1 = i := by
      rw [hid, g.idAt_eq ⟨i, hi⟩, idAt_eq_iff hlt]
    simp only [Function.comp_apply, Bool.beq_eq_decide_eq, same]

theorem edgesFrom_eq_filter (id : NodeId) :
    g.edgesFrom id = (g.edges.filter (·.source == id)).reverse :=
  edgesAt_eq_filter (fun a ha => (g.arcs_inside a ha).1) (fun _ _ _ => rfl) id

theorem edgesTo_eq_filter (id : NodeId) :
    g.edgesTo id = (g.edges.filter (·.target == id)).reverse :=
  edgesAt_eq_filter (fun a ha => (g.arcs_inside a ha).2) (fun _ _ _ => rfl) id

/-- The edges that leave a node are as many as the arcs that leave its position. -/
theorem length_edgesFrom (i : Fin g.nodes.length) :
    (g.edgesFrom (g.node i).id).length = g.arcs.countP (·.source = (i : ℕ)) := by
  rw [edgesFrom_eq_filter, List.length_reverse, ← List.countP_eq_length_filter]
  refine countP_edges fun a ha _ => ?_
  simp [Bool.beq_eq_decide_eq, idAt_eq_iff (g.arcs_inside a ha).1]

/-- The edges that reach a node are as many as the arcs that reach its position. -/
theorem length_edgesTo (i : Fin g.nodes.length) :
    (g.edgesTo (g.node i).id).length = g.arcs.countP (·.target = (i : ℕ)) := by
  rw [edgesTo_eq_filter, List.length_reverse, ← List.countP_eq_length_filter]
  refine countP_edges fun a ha _ => ?_
  simp [Bool.beq_eq_decide_eq, idAt_eq_iff (g.arcs_inside a ha).2]

/-- The arcs from a position and those to it, counted at once. -/
theorem sum_endsAt (arcs : List Arc) (i : ℕ) :
    (arcs.map fun a => a.endsAt i).sum =
      arcs.countP (·.source = i) + arcs.countP (·.target = i) := by
  induction arcs with
  | nil => rfl
  | cons a rest ih =>
    rw [List.map_cons, List.sum_cons, ih, List.countP_cons, List.countP_cons, Arc.endsAt]
    simp only [decide_eq_true_eq]
    omega

/-- The degree of a node is the number of ends that the arcs have at its position. -/
theorem degree_eq_sum (i : Fin g.nodes.length) :
    g.degree (g.node i).id = (g.arcs.map fun a => a.endsAt i).sum := by
  rw [degree, length_edgesFrom, length_edgesTo, sum_endsAt]

end

end Graph

end GraphCompare
