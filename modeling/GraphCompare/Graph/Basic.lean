import GraphCompare.Label

/-!
# Attributed graphs

A directed graph with any number of edges between two nodes and from a node to itself. Nodes are
named by ids that are distinct within the graph; nodes and edges carry attributes. Nothing is ever
removed, so a node is also known by its position, the number of nodes added before it, and an edge
by its number, the number of edges added before it.

The edges are stored between positions, as arcs. That all ids are distinct and that every arc ends
inside the graph are fields of `Graph`; the edges with ids and numbers are a view (`Graph.edges`).
An addition gives the new graph and nothing else: the id or the number of what is added can be told
beforehand, and `GraphCompare.Store`, which keeps ids, numbers and an index, answers with it.
-/

namespace GraphCompare

/-- The name of a node, distinct within one graph and without meaning across graphs. -/
abbrev NodeId := String

/-- The number of an edge. -/
structure EdgeId where
  number : UInt64
deriving DecidableEq

/-- A node with its attributes. -/
structure Node where
  id : NodeId
  attributes : Attributes

/-- An edge with its number, the ids of its ends, and its attributes. -/
structure Edge where
  id : EdgeId
  source : NodeId
  target : NodeId
  attributes : Attributes

/-- An edge between positions. -/
structure Arc where
  source : Nat
  target : Nat
  attributes : Attributes

/-- The label of a node. -/
def Node.label (n : Node) : String := n.attributes.label

/-- The label of an edge. -/
def Edge.label (e : Edge) : String := e.attributes.label

/-- The label of an arc. -/
def Arc.label (a : Arc) : String := a.attributes.label

/-- Why a node or an edge could not be added. -/
inductive GraphError where
  | duplicateNode (id : NodeId)
  | unknownNode (id : NodeId)
deriving DecidableEq

/-- The words of an error. -/
def GraphError.message : GraphError → String
  | duplicateNode id => "duplicate node id: " ++ id
  | unknownNode id => "edge references unknown node: " ++ id

/-- A directed graph with attributes. -/
structure Graph where
  /-- The nodes in the order in which they were added. -/
  nodes : List Node
  /-- The edges in the order in which they were added, between positions. -/
  arcs : List Arc
  nodup_ids : (nodes.map Node.id).Nodup
  arcs_inside : ∀ a ∈ arcs, a.source < nodes.length ∧ a.target < nodes.length

namespace Graph

@[ext] theorem ext {g h : Graph} (nodes : g.nodes = h.nodes) (arcs : g.arcs = h.arcs) : g = h := by
  cases g; cases h; cases nodes; cases arcs; rfl

/-- The graph without nodes. -/
def empty : Graph := ⟨[], [], .nil, nofun⟩

instance : Inhabited Graph := ⟨empty⟩

variable (g : Graph)

/-- The number of nodes. -/
def nodeCount : Nat := g.nodes.length

/-- The number of edges. -/
def edgeCount : Nat := g.arcs.length

/-- Whether the graph has no nodes, and so no edges. -/
def isEmpty : Bool := g.nodes.isEmpty

/-- The position of the node with an id. -/
def position? (id : NodeId) : Option Nat := g.nodes.findIdx? (·.id == id)

/-- The node with an id. -/
def node? (id : NodeId) : Option Node := g.nodes.find? (·.id == id)

/-- Whether there is a node with an id. -/
def contains (id : NodeId) : Bool := (g.node? id).isSome

theorem mem_ids_of_contains {g : Graph} {id : NodeId} (h : g.contains id) :
    id ∈ g.nodes.map Node.id := by
  obtain ⟨n, hn⟩ := Option.isSome_iff_exists.1 h
  exact List.mem_map.2 ⟨n, List.mem_of_find?_eq_some hn, by simpa using List.find?_some hn⟩

theorem not_mem_ids_of_not_contains {g : Graph} {id : NodeId} (h : g.contains id = false) :
    id ∉ g.nodes.map Node.id := by
  intro hm
  obtain ⟨n, hn, rfl⟩ := List.mem_map.1 hm
  simp only [contains, node?, Option.isSome_eq_false_iff, Option.isNone_iff_eq_none,
    List.find?_eq_none] at h
  exact h n hn (by simp)

theorem position?_lt {g : Graph} {id : NodeId} {i : Nat} (h : g.position? id = some i) :
    i < g.nodes.length := by
  obtain ⟨hlt, _⟩ := List.findIdx?_eq_some_iff_getElem.1 h
  exact hlt

/-- The graph with a node of a new id at its end. -/
def push (id : NodeId) (attributes : Attributes) (new : id ∉ g.nodes.map Node.id) : Graph where
  nodes := g.nodes ++ [⟨id, attributes⟩]
  arcs := g.arcs
  nodup_ids := by
    simp only [List.map_append, List.map_cons, List.map_nil]
    refine List.nodup_append.2 ⟨g.nodup_ids, by simp, fun a ha b hb hab => ?_⟩
    simp only [List.mem_singleton] at hb
    exact new (hb ▸ hab ▸ ha)
  arcs_inside := fun a ha => by
    have := g.arcs_inside a ha
    simp only [List.length_append, List.length_singleton]
    omega

/-- Adds a node. An id that is taken is refused. -/
def addNode (id : NodeId) (attributes : Attributes) : Except GraphError Graph :=
  if h : g.contains id = false then
    .ok (g.push id attributes (not_mem_ids_of_not_contains h))
  else .error (.duplicateNode id)

/-- A node that is added comes last, under an id that no node had. -/
theorem addNode_eq_ok {g h : Graph} {id : NodeId} {a : Attributes} :
    g.addNode id a = .ok h ↔
      g.contains id = false ∧ h.nodes = g.nodes ++ [⟨id, a⟩] ∧ h.arcs = g.arcs := by
  rw [addNode]
  split <;> rename_i hc
  · constructor
    · rintro ⟨⟩
      exact ⟨hc, rfl, rfl⟩
    · rintro ⟨-, hn, ha⟩
      cases h
      simp_all [push]
  · simp [hc]

/-- Adds a node unless there is one with its id, which then stays as it is. -/
def ensureNode (id : NodeId) (attributes : Attributes) : Graph :=
  if h : g.contains id = false then g.push id attributes (not_mem_ids_of_not_contains h) else g

/-- A node is ensured by adding it, or is there. -/
theorem nodes_ensureNode (id : NodeId) (a : Attributes) :
    (g.ensureNode id a).nodes = if g.contains id then g.nodes else g.nodes ++ [⟨id, a⟩] := by
  rw [ensureNode]
  split <;> simp_all [push]

theorem arcs_ensureNode (id : NodeId) (a : Attributes) :
    (g.ensureNode id a).arcs = g.arcs := by
  rw [ensureNode]
  split <;> rfl

/-- The position of an end of an edge to be added. -/
def endpoint (id : NodeId) : Except GraphError { i : Nat // i < g.nodes.length } :=
  match h : g.position? id with
  | some i => .ok ⟨i, position?_lt h⟩
  | none => .error (.unknownNode id)

theorem endpoint_eq_ok {g : Graph} {id : NodeId} {i : { i : Nat // i < g.nodes.length }} :
    g.endpoint id = .ok i ↔ g.position? id = some i.1 := by
  rw [endpoint]
  split <;> rename_i hp
  · simp [hp, Subtype.ext_iff]
  · simp [hp]

/-- Adds an edge between two nodes. A missing source is reported before a missing target. -/
def addEdge (source target : NodeId) (attributes : Attributes) : Except GraphError Graph := do
  let s ← g.endpoint source
  let t ← g.endpoint target
  return {
    g with
    arcs := g.arcs ++ [⟨s, t, attributes⟩]
    arcs_inside := fun a ha => by
      rcases List.mem_append.1 ha with ha | ha
      · exact g.arcs_inside a ha
      · rw [List.mem_singleton.1 ha]; exact ⟨s.2, t.2⟩ }

/-- An edge that is added comes last, between the positions of its ends. -/
theorem addEdge_eq_ok {g h : Graph} {source target : NodeId} {a : Attributes} :
    g.addEdge source target a = .ok h ↔
      ∃ s t, g.position? source = some s ∧ g.position? target = some t ∧
        h.nodes = g.nodes ∧ h.arcs = g.arcs ++ [⟨s, t, a⟩] := by
  constructor
  · intro he
    cases hs : g.endpoint source with
    | error e => simp [addEdge, hs, bind, Except.bind] at he
    | ok s =>
      cases ht : g.endpoint target with
      | error e => simp [addEdge, hs, ht, bind, Except.bind] at he
      | ok t =>
        simp only [addEdge, hs, ht, bind, Except.bind, pure, Except.pure, Except.ok.injEq] at he
        subst he
        exact ⟨s.1, t.1, endpoint_eq_ok.1 hs, endpoint_eq_ok.1 ht, rfl, rfl⟩
  · rintro ⟨s, t, hs, ht, hn, ha⟩
    have hs' : g.endpoint source = .ok ⟨s, position?_lt hs⟩ := endpoint_eq_ok.2 hs
    have ht' : g.endpoint target = .ok ⟨t, position?_lt ht⟩ := endpoint_eq_ok.2 ht
    simp only [addEdge, hs', ht', bind, Except.bind, pure, Except.pure, Except.ok.injEq]
    exact Graph.ext hn.symm ha.symm

/-- The id of the node at a position. -/
def idAt (i : Nat) : NodeId := (g.nodes[i]?.map Node.id).getD ""

/-- The edges in the order in which they were added, with the ids of their ends. -/
def edges : List Edge :=
  g.arcs.zipIdx.map fun (a, k) =>
    ⟨⟨.ofNat k⟩, g.idAt a.source, g.idAt a.target, a.attributes⟩

/-- The sizes of the graph, as a listing shows them. -/
def sizesText : String :=
  "Graph \x7b node_count: " ++ Decimal.integerText g.nodeCount ++ ", edge_count: " ++
    Decimal.integerText g.edgeCount ++ " \x7d"

end Graph

end GraphCompare
