import Mathlib
import GraphCompare.Proofs.Graph.Chains
import GraphCompare.Proofs.Graph.History

/-!
# A store shows its graph

A store keeps a graph (`Store.Keeps`) if its index has the positions of the graph's nodes, its edges
are the arcs beside the edges that these show, with the same numbers and the same ids, and its
chains are those of the ends of the arcs. A request that the graph accepts is answered with the id or
the number of what is added, and the store behind it keeps the graph behind it; a request that the
graph refuses gives the same error and the same store (`Store.Keeps.add`). So the store of a history
keeps the graph of the history (`Store.keeps_ofHistory`).

What a store is asked is then answered as the graph answers it (`Store.Shows`): look-ups go through
the index, and the edges at a node are met along its chain (`Store.Keeps.edgesAlong`).
-/

namespace GraphCompare

/-- What is added: a node with an id, or an edge with a number. -/
inductive Added where
  | node (id : NodeId)
  | edge (id : EdgeId)

namespace Graph

/-- What a request adds to a graph, or finds there, if it is not refused. -/
def added (g : Graph) : Addition → Added
  | .addNode id _ | .ensureNode id _ => .node id
  | .addEdge .. => .edge ⟨.ofNat g.edgeCount⟩

variable {g h : Graph} {id source target : NodeId} {a : Attributes}

/-- A new node is at the position behind the others. -/
theorem position?_push (new : id ∉ g.nodes.map Node.id) (x : NodeId) :
    (g.push id a new).position? x = if x == id then some g.nodes.length else g.position? x := by
  rw [position?, push, List.findIdx?_append, ← position?]
  by_cases hx : x = id
  · subst hx
    simp [position?_eq_none_iff.2 new]
  · simp [hx, Ne.symm hx]

theorem isSome_position? : (g.position? id).isSome = g.contains id := by
  rw [Bool.eq_iff_iff, contains_iff, ← not_iff_not, ← position?_eq_none_iff,
    Option.not_isSome_iff_eq_none]

/-- An edge that is added is the last arc, between the positions of its ends. -/
theorem arcs_of_addEdge {i j : ℕ} (hs : g.position? source = some i)
    (ht : g.position? target = some j) (hadd : g.addEdge source target a = .ok h) :
    h.nodes = g.nodes ∧ h.arcs = g.arcs ++ [⟨i, j, a⟩] := by
  obtain ⟨i', j', hs', ht', nodes, arcs⟩ := addEdge_eq_ok.1 hadd
  cases hs.symm.trans hs'
  cases ht.symm.trans ht'
  exact ⟨nodes, arcs⟩

/-- It stands beside the edge that it shows. -/
theorem zip_edges_of_addEdge {i j : ℕ} (hs : g.position? source = some i)
    (ht : g.position? target = some j) (hadd : g.addEdge source target a = .ok h) :
    h.arcs.zip h.edges = g.arcs.zip g.edges ++
      [(⟨i, j, a⟩, ⟨⟨.ofNat g.edgeCount⟩, source, target, a⟩)] := by
  rw [(arcs_of_addEdge hs ht hadd).2, edges_of_addEdge hadd, List.zip_append (by simp [edges])]
  rfl

end Graph

namespace Store

/-! ## Requests -/

/-- The answer to a request, and the store behind it. -/
def add (s : Store) : Addition → Except GraphError Added × Store
  | .addNode name a => (s.addNode name a).map (.map .node) id
  | .ensureNode name a => (s.ensureNode name a).map (.ok ∘ .node) id
  | .addEdge source target a => (s.addEdge source target a).map (.map .edge) id

/-- The store behind a sequence of requests. -/
def ofHistory (history : List Addition) : Store := history.foldl (fun s r => (s.add r).2) empty

/-- One more request at the end of a history. -/
theorem ofHistory_concat (history : List Addition) (r : Addition) :
    ofHistory (history ++ [r]) = ((ofHistory history).add r).2 :=
  List.foldl_concat ..

/-- A store keeps a graph. -/
structure Keeps (s : Store) (g : Graph) : Prop where
  nodes : s.nodes = g.nodes
  index : ∀ id, s.index.get? id = g.position? id
  edges : s.edges = (g.arcs.zip g.edges).map fun (a, e) => ⟨a.source, a.target, e⟩
  leaving : s.leaving = .ofEnds (g.arcs.map Arc.source)
  reaching : s.reaching = .ofEnds (g.arcs.map Arc.target)

variable {s : Store} {g h : Graph} {id source target : NodeId} {a : Attributes}

theorem keeps_empty : empty.Keeps .empty := ⟨rfl, fun _ => rfl, rfl, rfl, rfl⟩

namespace Keeps

theorem contains (k : s.Keeps g) (id : NodeId) : s.contains id = g.contains id := by
  rw [Store.contains, k.index, Graph.isSome_position?]

theorem length_edges (k : s.Keeps g) : s.edges.length = g.edgeCount := by
  rw [k.edges, List.length_map, List.length_zip]
  simp [Graph.edges, Graph.edgeCount]

/-- A new node changes the index at its id, and no edge. -/
theorem pushNode (k : s.Keeps g) (new : id ∉ g.nodes.map Node.id) :
    (s.pushNode id a).Keeps (g.push id a new) where
  nodes := by rw [Store.pushNode, Graph.push, k.nodes]
  index x := by
    rw [Graph.position?_push, Store.pushNode, SortedMap.get?_insert, k.index, k.nodes]
  edges := by
    have same : (g.push id a new).edges = g.edges := Graph.edges_of_nodes_append rfl rfl
    rw [same]
    exact k.edges
  leaving := k.leaving
  reaching := k.reaching

/-- A new edge comes in front of the chains at its ends, and changes no node. -/
theorem pushEdge (k : s.Keeps g) {i j : ℕ} (hs : g.position? source = some i)
    (ht : g.position? target = some j) (hadd : g.addEdge source target a = .ok h) :
    (s.pushEdge i j ⟨⟨.ofNat s.edges.length⟩, source, target, a⟩).Keeps h := by
  obtain ⟨nodes, arcs⟩ := Graph.arcs_of_addEdge hs ht hadd
  constructor
  · rw [nodes]
    exact k.nodes
  · intro x
    rw [Graph.position?, nodes]
    exact k.index x
  · rw [Graph.zip_edges_of_addEdge hs ht hadd, List.map_append, ← k.edges, ← k.length_edges]
    rfl
  · rw [arcs, List.map_append, List.map_singleton, Chains.ofEnds_concat, ← k.leaving]
    rfl
  · rw [arcs, List.map_append, List.map_singleton, Chains.ofEnds_concat, ← k.reaching]
    rfl

/-- One request. What the graph accepts the store accepts, and answers with what is added; what the
graph refuses is refused with the same error and leaves the store as it is. -/
theorem add (k : s.Keeps g) (r : Addition) :
    match g.add r with
    | .ok h => (s.add r).1 = .ok (g.added r) ∧ (s.add r).2.Keeps h
    | .error e => s.add r = (.error e, s) := by
  cases r with
  | addNode id a =>
    rw [Graph.add, Graph.addNode, Store.add, Store.addNode, k.contains]
    by_cases new : g.contains id = false
    · rw [dif_pos new, new]
      exact ⟨rfl, k.pushNode _⟩
    · rw [dif_neg new, if_pos (Bool.not_eq_false _ ▸ new)]
      rfl
  | ensureNode id a =>
    rw [Graph.add, Graph.ensureNode, Store.add, Store.ensureNode, k.contains]
    by_cases new : g.contains id = false
    · rw [dif_pos new, new]
      exact ⟨rfl, k.pushNode _⟩
    · rw [dif_neg new, if_pos (Bool.not_eq_false _ ▸ new)]
      exact ⟨rfl, k⟩
  | addEdge source target a =>
    rw [Graph.add]
    cases hadd : g.addEdge source target a with
    | ok h =>
      obtain ⟨i, j, hs, ht, -⟩ := Graph.addEdge_eq_ok.1 hadd
      have pushed : s.add (.addEdge source target a) = (.ok (.edge ⟨.ofNat g.edgeCount⟩),
          s.pushEdge i j ⟨⟨.ofNat s.edges.length⟩, source, target, a⟩) := by
        simp only [Store.add, Store.addEdge, k.index, hs, ht, ← k.length_edges]
        rfl
      rw [pushed]
      exact ⟨rfl, k.pushEdge hs ht hadd⟩
    | error e =>
      rcases Graph.addEdge_eq_error_iff.1 hadd with ⟨missing, rfl⟩ | ⟨known, missing, rfl⟩
      · simp only [Store.add, Store.addEdge, k.index, Graph.position?_eq_none_iff.2 missing]
        rfl
      · have found : g.position? source ≠ none := mt Graph.position?_eq_none_iff.1 (· known)
        obtain ⟨i, hi⟩ := Option.ne_none_iff_exists'.1 found
        simp only [Store.add, Store.addEdge, k.index, hi, Graph.position?_eq_none_iff.2 missing]
        rfl

end Keeps

/-- The store of a history keeps the graph of the history. -/
theorem keeps_ofHistory (history : List Addition) :
    (ofHistory history).Keeps (.ofHistory history) := by
  induction history using List.reverseRecOn with
  | nil => exact keeps_empty
  | append_singleton history r ih =>
    rw [ofHistory_concat, Graph.ofHistory_concat]
    have step := ih.add r
    cases hadd : (Graph.ofHistory history).add r with
    | ok h =>
      rw [hadd] at step
      rw [Graph.after_of_add hadd]
      exact step.2
    | error e =>
      rw [hadd] at step
      rw [Graph.after_of_refused hadd, step]
      exact ih

/-! ## Questions -/

/-- A store shows a graph: it answers every question as the graph does, and every request with what
the graph makes of it. -/
structure Shows (s : Store) (g : Graph) : Prop where
  graph : s.graph? = some g
  nodes : s.nodes = g.nodes
  edges : s.allEdges = g.edges
  nodeCount : s.nodeCount = g.nodeCount
  edgeCount : s.edgeCount = g.edgeCount
  node? : s.node? = g.node?
  contains : s.contains = g.contains
  positions : s.positionedEdges = (g.arcs.zip g.edges).map fun (a, e) => (a.source, a.target, e)
  edgesFrom : s.edgesFrom = g.edgesFrom
  edgesTo : s.edgesTo = g.edgesTo
  degree : s.degree = g.degree
  hasEdge : s.hasEdge = g.hasEdge
  /-- What is accepted is answered with what is added. -/
  accepted : ∀ r h, g.add r = .ok h → (s.add r).1 = .ok (g.added r) ∧ (s.add r).2.graph? = some h
  /-- What is refused changes nothing. -/
  refused : ∀ r e, g.add r = .error e → s.add r = (.error e, s)

namespace Keeps

theorem node? (k : s.Keeps g) (id : NodeId) : s.node? id = g.node? id := by
  rw [Store.node?, k.index, k.nodes, Graph.node?, List.find?_eq_bind_findIdx?_getElem?]
  rfl

theorem allEdges (k : s.Keeps g) : s.allEdges = g.edges := by
  rw [Store.allEdges, k.edges, List.map_map]
  exact List.map_snd_zip (by simp [Graph.edges])

/-- The edges at a node are met along the chain at its position. -/
theorem edgesAlong (k : s.Keeps g) (endOf : Arc → ℕ) (id : NodeId) :
    s.edgesAlong (.ofEnds (g.arcs.map endOf)) id = g.edgesAt endOf id := by
  rw [Store.edgesAlong, Graph.edgesAt, k.index]
  cases g.position? id with
  | none => rfl
  | some i =>
    have ends : g.arcs.map endOf = (g.arcs.zip g.edges).map fun e => endOf e.1 := by
      have arcs : (g.arcs.zip g.edges).map Prod.fst = g.arcs :=
        List.map_fst_zip (by simp [Graph.edges])
      conv_lhs => rw [← arcs, List.map_map]
      rfl
    have kept : ∀ n : ℕ,
        s.edges[n]?.map StoredEdge.edge = (g.arcs.zip g.edges)[n]?.map Prod.snd := by
      intro n
      rw [k.edges, List.getElem?_map, Option.map_map]
      rfl
    simp only [Chains.walk_ofEnds, ends, kept, filterMap_placesOf, List.filter_reverse]

theorem edgesFrom (k : s.Keeps g) : s.edgesFrom = g.edgesFrom := by
  funext id
  rw [Store.edgesFrom, k.leaving, k.edgesAlong, Graph.edgesFrom]

theorem edgesTo (k : s.Keeps g) : s.edgesTo = g.edgesTo := by
  funext id
  rw [Store.edgesTo, k.reaching, k.edgesAlong, Graph.edgesTo]

theorem graph? (k : s.Keeps g) : s.graph? = some g := by
  have arcs : (s.edges.map fun e => Arc.mk e.source e.target e.edge.attributes) = g.arcs := by
    rw [k.edges, Graph.zip_edges, List.map_map, List.map_map]
    exact List.zipIdx_map_fst 0 g.arcs
  simp only [Store.graph?, arcs, k.nodes]
  exact dif_pos ⟨g.nodup_ids, g.arcs_inside⟩

/-- Whatever is kept is shown. -/
theorem shows (k : s.Keeps g) : s.Shows g where
  graph := k.graph?
  nodes := k.nodes
  edges := k.allEdges
  nodeCount := by rw [nodeCount, k.nodes, Graph.nodeCount]
  edgeCount := k.length_edges
  node? := funext k.node?
  contains := funext k.contains
  positions := by
    rw [positionedEdges, k.edges, List.map_map]
    rfl
  edgesFrom := k.edgesFrom
  edgesTo := k.edgesTo
  degree := by
    funext id
    rw [degree, k.edgesFrom, k.edgesTo, Graph.degree]
  hasEdge := by
    funext source target label
    rw [hasEdge, k.edgesFrom, Graph.hasEdge]
  accepted r h hadd := by
    have step := k.add r
    rw [hadd] at step
    exact ⟨step.1, step.2.graph?⟩
  refused r e hadd := by
    have step := k.add r
    rwa [hadd] at step

end Keeps

end Store

end GraphCompare
