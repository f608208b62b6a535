import Mathlib
import GraphCompare.Proofs.Graph.Addition

/-!
# Graphs as histories of additions

A graph grows by requests to add a node, to ensure one, or to add an edge, and a request that is
refused leaves it as it is (`Graph.after`). `Graph.Reflects` says what a graph has to do with the
requests that were made from the start: its nodes are the nodes that were asked for, the first one
under each id, and its edges are those that were asked for when both of their ends were there. Ids,
positions and numbers are in step with these two lists.

One request adds at most one node or one edge (`Graph.nodes_after`, `Graph.edges_after`), which is
what carries the relation through a step (`Graph.follows_after`) and so through a history of any
length (`Graph.follows_ofHistory`). The graphs that documents, summaries and differences come to are
made by such histories too, so `Graph.Reflects` holds of them as well.
-/

namespace GraphCompare

/-! ## Requests -/

/-- A request to add something to a graph. -/
inductive Addition where
  | addNode (id : NodeId) (attributes : Attributes)
  | ensureNode (id : NodeId) (attributes : Attributes)
  | addEdge (source target : NodeId) (attributes : Attributes)

namespace Addition

/-- The node that a request asks for. -/
def node? : Addition → Option Node
  | addNode id a | ensureNode id a => some ⟨id, a⟩
  | addEdge .. => none

/-- The edge that a request asks for, if both of its ends are known. -/
def edge? (known : List NodeId) : Addition → Option (NodeId × NodeId × Attributes)
  | addNode .. | ensureNode .. => none
  | addEdge source target a =>
    if source ∈ known ∧ target ∈ known then some (source, target, a) else none

/-- The nodes that a history asks for, the first one under each id. -/
def nodes (history : List Addition) : List Node :=
  (history.filterMap node?).eraseDupsBy (·.id == ·.id)

/-- The ids that a history asks for. -/
def ids (history : List Addition) : List NodeId := (history.filterMap node?).map Node.id

/-- The edges that a history asks for between nodes that it has asked for before. -/
def edges (history : List Addition) : List (NodeId × NodeId × Attributes) :=
  history.zipIdx.filterMap fun (request, i) => request.edge? (ids (history.take i))

end Addition

/-- An element at the end of a list is kept if its key is new. -/
theorem eraseDupsBy_concat {α κ : Type} [DecidableEq κ] (key : α → κ) (l : List α) (x : α) :
    (l ++ [x]).eraseDupsBy (key · == key ·) =
      l.eraseDupsBy (key · == key ·) ++ if key x ∈ l.map key then [] else [x] := by
  -- what follows the first element is filtered, so the induction is on the length
  induction hn : l.length using Nat.strong_induction_on generalizing l with
  | _ n ih =>
  cases l with
  | nil => simp [List.eraseDupsBy_cons]
  | cons a l =>
    have shorter : (l.filter fun b => decide ((key b == key a) = false)).length < n := by
      have := List.length_filter_le (fun b => decide ((key b == key a) = false)) l
      rw [← hn, List.length_cons]
      omega
    rw [List.cons_append, List.eraseDupsBy_cons, List.eraseDupsBy_cons, List.filter_append]
    by_cases hx : key x = key a
    · simp [hx]
    · have others : key x ∈ (l.filter fun b => decide ((key b == key a) = false)).map key ↔
          key x ∈ l.map key := by
        simp only [List.mem_map, List.mem_filter]
        constructor
        · rintro ⟨b, ⟨hb, -⟩, hkey⟩
          exact ⟨b, hb, hkey⟩
        · rintro ⟨b, hb, hkey⟩
          exact ⟨b, ⟨hb, by simp [hkey, hx]⟩, hkey⟩
      have kept : [x].filter (fun b => decide ((key b == key a) = false)) = [x] := by simp [hx]
      rw [kept, ih _ shorter _ rfl, List.cons_append]
      simp only [others, List.map_cons, List.mem_cons, hx, false_or]

/-- The keys that are kept are the keys that there were. -/
theorem mem_map_eraseDupsBy {α κ : Type} [DecidableEq κ] {key : α → κ} {l : List α} {k : κ} :
    k ∈ (l.eraseDupsBy (key · == key ·)).map key ↔ k ∈ l.map key := by
  induction l using List.reverseRecOn with
  | nil => simp
  | append_singleton l x ih =>
    rw [eraseDupsBy_concat, List.map_append, List.map_append, List.mem_append, List.mem_append, ih]
    split
    case isTrue hx =>
      simp only [List.map_nil, List.not_mem_nil, or_false, List.map_cons, List.mem_singleton]
      constructor
      · exact Or.inl
      · rintro (hk | rfl)
        · exact hk
        · exact hx
    case isFalse hx => rfl

/-- What is kept was there. -/
theorem mem_of_mem_eraseDupsBy {α κ : Type} [DecidableEq κ] {key : α → κ} {l : List α} {x : α}
    (hx : x ∈ l.eraseDupsBy (key · == key ·)) : x ∈ l := by
  induction l using List.reverseRecOn with
  | nil => simp at hx
  | append_singleton l y ih =>
    rw [eraseDupsBy_concat, List.mem_append] at hx
    rcases hx with hx | hx
    · exact List.mem_append_left _ (ih hx)
    · split at hx
      · cases hx
      · exact List.mem_append_right _ hx

namespace Addition

variable {history : List Addition} {r : Addition}

theorem mem_map_id_nodes {id : NodeId} : id ∈ (nodes history).map Node.id ↔ id ∈ ids history :=
  mem_map_eraseDupsBy

/-- A request asks for a new node if it asks for a node under a new id. -/
theorem nodes_concat : nodes (history ++ [r]) =
    nodes history ++ (r.node?.filter fun n => n.id ∉ ids history).toList := by
  rw [nodes, nodes, List.filterMap_append]
  cases hr : r.node? with
  | none => simp [hr]
  | some n =>
    have last : [r].filterMap node? = [n] := by simp [hr]
    rw [last, eraseDupsBy_concat, Option.filter_some, ← ids]
    by_cases hid : n.id ∈ ids history <;> simp [hid]

/-- The ends of an edge have to be asked for before it. -/
theorem edges_concat :
    edges (history ++ [r]) = edges history ++ (r.edge? (ids history)).toList := by
  rw [edges, edges, List.zipIdx_append, List.filterMap_append]
  congr 1
  · refine List.filterMap_congr fun ⟨request, i⟩ hi => ?_
    have hlt := (List.mem_zipIdx hi).2.1
    simp only [Nat.zero_add] at hlt
    simp only [List.take_append_of_le_length hlt.le]
  · have whole : (history ++ [r]).take history.length = history := List.take_left
    simp only [List.zipIdx_singleton, Nat.zero_add, List.filterMap_cons, List.filterMap_nil, whole]
    cases r.edge? (ids history) <;> rfl

end Addition

namespace Graph

/-! ## One request -/

/-- What a request makes of a graph, if it is not refused. -/
def add (g : Graph) : Addition → Except GraphError Graph
  | .addNode id a => g.addNode id a
  | .ensureNode id a => .ok (g.ensureNode id a)
  | .addEdge source target a => g.addEdge source target a

/-- The graph behind a request. A request that is refused leaves the graph as it is. -/
def after (g : Graph) (r : Addition) : Graph :=
  match g.add r with
  | .ok h => h
  | .error _ => g

/-- The graph behind a sequence of requests. -/
def ofHistory (history : List Addition) : Graph := history.foldl after empty

variable {g h : Graph} {r : Addition}

theorem after_of_add (hadd : g.add r = .ok h) : g.after r = h := by rw [after, hadd]

theorem after_of_refused {e : GraphError} (hadd : g.add r = .error e) : g.after r = g := by
  rw [after, hadd]

/-- A request adds the node that it asks for at the end, if its id is new. -/
theorem nodes_after : (g.after r).nodes =
    g.nodes ++ (r.node?.filter fun n => n.id ∉ g.nodes.map Node.id).toList := by
  have asked : ∀ id a, ((some (Node.mk id a)).filter fun n => n.id ∉ g.nodes.map Node.id).toList =
      if id ∈ g.nodes.map Node.id then [] else [⟨id, a⟩] := by
    intro id a
    rw [Option.filter_some]
    by_cases hid : id ∈ g.nodes.map Node.id <;> simp only [hid] <;> rfl
  cases r with
  | addNode id a =>
    rw [Addition.node?, asked]
    split
    case isTrue taken =>
      have hadd : g.add (.addNode id a) = .error (.duplicateNode id) :=
        addNode_eq_error_iff.2 ⟨taken, rfl⟩
      rw [after_of_refused hadd, List.append_nil]
    case isFalse new =>
      obtain ⟨h, hadd, nodes, -⟩ := exists_addNode new a
      have hadd : g.add (.addNode id a) = .ok h := hadd
      rw [after_of_add hadd, nodes]
  | ensureNode id a =>
    rw [after_of_add rfl, nodes_ensureNode, Addition.node?, asked]
    simp only [contains_iff]
    split
    · rw [List.append_nil]
    · rfl
  | addEdge source target a =>
    rw [Addition.node?, Option.filter_none, Option.toList_none, List.append_nil]
    cases hadd : g.add (.addEdge source target a) with
    | error e => rw [after_of_refused hadd]
    | ok h =>
      obtain ⟨_, _, _, _, nodes, _⟩ := addEdge_eq_ok.1 hadd
      rw [after_of_add hadd, nodes]

/-- A request adds the edge that it asks for at the end, if both ends are there. -/
theorem edges_after : (g.after r).edges =
    g.edges ++ ((r.edge? (g.nodes.map Node.id)).map fun (source, target, a) =>
      ⟨⟨.ofNat g.edgeCount⟩, source, target, a⟩).toList := by
  cases r with
  | addNode id a =>
    rw [Addition.edge?, Option.map_none, Option.toList_none, List.append_nil]
    cases hadd : g.add (.addNode id a) with
    | error e => rw [after_of_refused hadd]
    | ok h =>
      obtain ⟨_, nodes, arcs⟩ := addNode_eq_ok.1 hadd
      rw [after_of_add hadd, edges_of_nodes_append nodes arcs]
  | ensureNode id a =>
    rw [Addition.edge?, Option.map_none, Option.toList_none, List.append_nil]
    exact edges_of_nodes_append nodes_after (arcs_ensureNode g id a)
  | addEdge source target a =>
    cases hadd : g.add (.addEdge source target a) with
    | error e =>
      have missing : ¬(source ∈ g.nodes.map Node.id ∧ target ∈ g.nodes.map Node.id) := by
        rintro ⟨hs, ht⟩
        obtain ⟨h, hok⟩ := exists_addEdge hs ht a
        cases hok.symm.trans hadd
      rw [after_of_refused hadd, Addition.edge?, if_neg missing, Option.map_none,
        Option.toList_none, List.append_nil]
    | ok h =>
      obtain ⟨i, j, hs, ht, _⟩ := addEdge_eq_ok.1 hadd
      have known : source ∈ g.nodes.map Node.id ∧ target ∈ g.nodes.map Node.id :=
        ⟨mem_ids_of_position? hs, mem_ids_of_position? ht⟩
      rw [after_of_add hadd, edges_of_addEdge hadd, Addition.edge?, if_pos known, Option.map_some,
        Option.toList_some]

/-! ## A history -/

/-- The nodes and the edges of a graph are what a history has asked for. -/
structure Follows (g : Graph) (history : List Addition) : Prop where
  nodes : g.nodes = Addition.nodes history
  edges : (g.edges.map fun e => (e.source, e.target, e.attributes)) = Addition.edges history

/-- Ids are those that were asked for. -/
theorem Follows.mem_ids {history : List Addition} (f : g.Follows history) {id : NodeId} :
    id ∈ g.nodes.map Node.id ↔ id ∈ Addition.ids history := by
  rw [f.nodes, Addition.mem_map_id_nodes]

/-- One more request. -/
theorem follows_after {history : List Addition} (f : g.Follows history) (r : Addition) :
    (g.after r).Follows (history ++ [r]) := by
  constructor
  · rw [nodes_after, Addition.nodes_concat, ← f.nodes]
    simp only [f.mem_ids]
  · have known : r.edge? (g.nodes.map Node.id) = r.edge? (Addition.ids history) := by
      cases r <;> simp only [Addition.edge?, f.mem_ids]
    rw [edges_after, Addition.edges_concat, List.map_append, f.edges, known]
    cases r.edge? (Addition.ids history) <;> rfl

/-- One more request at the end of a history. -/
theorem ofHistory_concat (history : List Addition) (r : Addition) :
    ofHistory (history ++ [r]) = (ofHistory history).after r :=
  List.foldl_concat ..

/-- A graph follows its history. -/
theorem follows_ofHistory (history : List Addition) : (ofHistory history).Follows history := by
  induction history using List.reverseRecOn with
  | nil => exact ⟨rfl, rfl⟩
  | append_singleton history r ih =>
    rw [ofHistory_concat]
    exact follows_after ih r

/-! ## Graphs that are made of histories -/

/-- Requests of which none is refused make the graph that they come to. -/
theorem foldl_after_of_foldlM {requests : List Addition} {g h : Graph}
    (hadd : requests.foldlM add g = .ok h) : requests.foldl after g = h := by
  induction requests generalizing g with
  | nil => exact Except.ok.inj hadd
  | cons r rest ih =>
    rw [List.foldlM_cons] at hadd
    cases hr : g.add r with
    | error e => rw [hr] at hadd; cases hadd
    | ok g' =>
      rw [hr] at hadd
      rw [List.foldl_cons, after_of_add hr]
      exact ih hadd

/-- Ensuring nodes is never refused. -/
theorem foldlM_ensureNode {α : Type} (id : α → NodeId) (bag : α → Attributes) (l : List α)
    (g : Graph) : (l.map fun x => Addition.ensureNode (id x) (bag x)).foldlM add g =
      .ok (l.foldl (fun g x => g.ensureNode (id x) (bag x)) g) := by
  induction l generalizing g with
  | nil => rfl
  | cons x rest ih =>
    rw [List.map_cons, List.foldlM_cons, List.foldl_cons]
    exact ih _

/-- Ensuring nodes adds no arc. -/
theorem arcs_foldl_ensureNode {α : Type} (id : α → NodeId) (bag : α → Attributes) (l : List α)
    (g : Graph) : (l.foldl (fun g x => g.ensureNode (id x) (bag x)) g).arcs = g.arcs := by
  induction l generalizing g with
  | nil => rfl
  | cons x rest ih => rw [List.foldl_cons, ih, arcs_ensureNode]

/-- Histories go on where others stop. -/
theorem ofHistory_append (first second : List Addition) :
    ofHistory (first ++ second) = second.foldl after (ofHistory first) :=
  List.foldl_append

end Graph

end GraphCompare
