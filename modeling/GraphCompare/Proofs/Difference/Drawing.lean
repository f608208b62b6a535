import Mathlib
import GraphCompare.Proofs.Difference.Emptiness
import GraphCompare.Proofs.Graph.Coherence

/-!
# What a change graph shows

A change graph has nodes for labels. Which ones it needs is said by `Difference.Shown`: those that
only one of the graphs has, those that both have where a changed triple ends at them, and all of
them if what is common is to be shown. A node is named by what it stands for
(`Difference.Entity.id`), and carries this name as its label.

Drawing a triple ensures its ends before it adds the edge, so no edge is refused
(`Graph.foldlM_drawTriple`) and the edges are the triples in the order in which they are drawn
(`Graph.links_foldl_addTriple`). An end of a removed triple is a label of the first graph, so it was
removed itself or is common, and likewise for added and common triples; thus every node that an edge
brings in stands for one of the entities above (`Difference.mem_ids_ofGraphs`).
-/

namespace GraphCompare

/-! ## Labels and triples -/

theorem Attributes.label_ofLabel (l : String) : (ofLabel l).label = l := rfl

/-- A label is an end of a triple. -/
def EdgeTriple.HasEnd (t : EdgeTriple) (l : String) : Prop := l = t.source ∨ l = t.target

/-- The edge that a triple is drawn as. -/
def EdgeTriple.link (t : EdgeTriple) : NodeId × NodeId × Attributes :=
  (t.source, t.target, .ofLabel t.label)

namespace Graph

variable {g : Graph}

/-- The ends of the triples of a graph are labels of it. -/
theorem mem_labels_of_hasEnd {t : EdgeTriple} {l : String} (ht : t ∈ g.triples)
    (hl : t.HasEnd l) : l ∈ g.labels := by
  have label : ∀ {i}, i < g.nodes.length → g.labelAt i ∈ g.labels := by
    intro i hi
    exact ⟨g.nodes[i], List.getElem_mem hi, by simp [labelAt, hi]⟩
  obtain ⟨a, ha, rfl⟩ := ht
  obtain ⟨hs, ht⟩ := g.arcs_inside a ha
  rcases hl with rfl | rfl
  · exact label hs
  · exact label ht

/-! ## Drawing without refusal -/

/-- A label that is ensured is an id, besides those that there were. -/
theorem mem_ids_ensureLabel {l : String} {id : NodeId} :
    id ∈ (g.ensureLabel l).nodes.map Node.id ↔ id = l ∨ id ∈ g.nodes.map Node.id := by
  rw [ensureLabel, nodes_ensureNode]
  split
  case isTrue known =>
    constructor
    · exact Or.inr
    · rintro (rfl | hid)
      · exact contains_iff.1 known
      · exact hid
  case isFalse new =>
    rw [List.map_append, List.mem_append, List.map_singleton, List.mem_singleton, or_comm]

/-- A triple is drawn without refusal, since its ends are ensured before. -/
theorem addEdge_ensureLabel (g : Graph) (t : EdgeTriple) :
    ((g.ensureLabel t.source).ensureLabel t.target).addEdge t.source t.target (.ofLabel t.label) =
      .ok (g.addTriple t) := by
  have source : t.source ∈
      ((g.ensureLabel t.source).ensureLabel t.target).nodes.map Node.id :=
    mem_ids_ensureLabel.2 (.inr (mem_ids_ensureLabel.2 (.inl rfl)))
  have target : t.target ∈
      ((g.ensureLabel t.source).ensureLabel t.target).nodes.map Node.id :=
    mem_ids_ensureLabel.2 (.inl rfl)
  obtain ⟨h, hadd⟩ := exists_addEdge source target (.ofLabel t.label)
  simp only [addTriple, hadd]

/-- Drawing a triple is a history without refusal. -/
theorem foldlM_drawTriple (g : Graph) (t : EdgeTriple) :
    (drawTriple t).foldlM add g = .ok (g.addTriple t) := by
  have added := addEdge_ensureLabel g t
  rw [ensureLabel, ensureLabel] at added
  simp only [drawTriple, List.foldlM_cons, List.foldlM_nil, add, added, bind, Except.bind, pure,
    Except.pure]

/-- Drawing triples is a history without refusal. -/
theorem foldlM_drawTriples (triples : List EdgeTriple) (g : Graph) :
    (triples.flatMap drawTriple).foldlM add g = .ok (triples.foldl addTriple g) := by
  induction triples generalizing g with
  | nil => rfl
  | cons t rest ih =>
    rw [List.flatMap_cons, List.foldlM_append, foldlM_drawTriple, List.foldl_cons]
    exact ih _

/-- A triple is drawn as one edge, behind the edges that are there. -/
theorem links_addTriple (g : Graph) (t : EdgeTriple) :
    (g.addTriple t).links = g.links ++ [t.link] := by
  have ensured : ∀ (h : Graph) (l : String), (h.ensureLabel l).edges = h.edges := fun h l =>
    edges_of_nodes_append (nodes_after (g := h) (r := .ensureNode l (.ofLabel l)))
      (arcs_ensureNode ..)
  rw [links, edges_of_addEdge (addEdge_ensureLabel g t), ensured, ensured, List.map_append]
  rfl

/-- The edges are the triples in the order in which they are drawn. -/
theorem links_foldl_addTriple (triples : List EdgeTriple) (g : Graph) :
    (triples.foldl addTriple g).links = g.links ++ triples.map EdgeTriple.link := by
  induction triples generalizing g with
  | nil => simp
  | cons t rest ih =>
    rw [List.foldl_cons, ih, links_addTriple, List.append_assoc]
    rfl

variable (labels : List String) (triples : List EdgeTriple)

/-- The ids of a drawing are the labels and the ends of the triples. -/
theorem mem_ids_drawing {id : NodeId} :
    id ∈ (triples.foldl addTriple (labels.foldl ensureLabel empty)).nodes.map Node.id ↔
      id ∈ labels ∨ ∃ t ∈ triples, t.HasEnd id := by
  have ends : ∀ t, (drawTriple t).filterMap Addition.node? =
      [⟨t.source, .ofLabel t.source⟩, ⟨t.target, .ofLabel t.target⟩] := fun _ => rfl
  have named : ∀ l, Addition.node? (.ensureNode l (.ofLabel l)) = some ⟨l, .ofLabel l⟩ :=
    fun _ => rfl
  rw [foldl_addTriple_eq, (follows_ofHistory _).mem_ids, Addition.ids, List.filterMap_append,
    List.filterMap_map, List.filterMap_flatMap, List.map_append, List.mem_append]
  simp [Function.comp_def, ends, named, List.map_flatMap, EdgeTriple.HasEnd]

/-- The nodes of a drawing are named by their labels. -/
theorem attributes_of_mem_drawing {n : Node}
    (hn : n ∈ (triples.foldl addTriple (labels.foldl ensureLabel empty)).nodes) :
    n.attributes = .ofLabel n.id := by
  rw [foldl_addTriple_eq, (follows_ofHistory _).nodes] at hn
  obtain ⟨r, hr, asked⟩ := List.mem_filterMap.1 (mem_of_mem_eraseDupsBy hn)
  rcases List.mem_append.1 hr with hr | hr
  · obtain ⟨l, -, rfl⟩ := List.mem_map.1 hr
    obtain rfl := Option.some.inj asked
    rfl
  · obtain ⟨t, -, hr⟩ := List.mem_flatMap.1 hr
    simp only [drawTriple, List.mem_cons, List.not_mem_nil, or_false] at hr
    rcases hr with rfl | rfl | rfl
    · obtain rfl := Option.some.inj asked
      rfl
    · obtain rfl := Option.some.inj asked
      rfl
    · cases asked

/-- The edges of a drawing are the triples. -/
theorem links_drawing :
    (triples.foldl addTriple (labels.foldl ensureLabel empty)).links =
      triples.map EdgeTriple.link := by
  have arcs : (labels.foldl ensureLabel empty).arcs = [] :=
    arcs_foldl_ensureNode id Attributes.ofLabel labels empty
  rw [links_foldl_addTriple, links_eq (labels.foldl ensureLabel empty), arcs]
  rfl

/-- A drawing is made without refusal. -/
theorem foldlM_drawing :
    ((labels.map fun l => Addition.ensureNode l (.ofLabel l)) ++
        triples.flatMap drawTriple).foldlM add empty =
      .ok (triples.foldl addTriple (labels.foldl ensureLabel empty)) := by
  have ensured := foldlM_ensureNode id Attributes.ofLabel labels empty
  simp only [id_eq] at ensured
  rw [List.foldlM_append, ensured]
  exact foldlM_drawTriples triples _

end Graph

/-! ## Entities -/

namespace Difference

/-- What a node of a change graph can stand for: a label that only the first graph has, one that
only the second has, or one that both have. -/
inductive Entity where
  | removed (l : String)
  | added (l : String)
  | common (l : String)
deriving DecidableEq

/-- The id of the node for an entity. -/
def Entity.id : Entity → NodeId
  | removed l => signed '-' l
  | added l => signed '+' l
  | common l => l

/-- A label is an end of a triple that only one of the graphs has. -/
def ChangedAt (A B : Graph) (l : String) : Prop :=
  ∃ t, (t ∈ A.triples \ B.triples ∨ t ∈ B.triples \ A.triples) ∧ t.HasEnd l

/-- The entities that the change graph of two graphs shows. -/
inductive Shown (A B : Graph) (includeCommon : Bool) : Entity → Prop where
  | removed {l : String} (only : l ∈ A.labels \ B.labels) : Shown A B includeCommon (.removed l)
  | added {l : String} (only : l ∈ B.labels \ A.labels) : Shown A B includeCommon (.added l)
  | common {l : String} (both : l ∈ A.labels ∩ B.labels)
    (needed : includeCommon = true ∨ ChangedAt A B l) : Shown A B includeCommon (.common l)

open Classical in
/-- The edge that a changed triple is drawn as. Its label is signed, and so are those of its ends
that are changed themselves. -/
noncomputable def changedLink (sign : Char) (changed : Set String) (t : EdgeTriple) :
    NodeId × NodeId × Attributes :=
  (if t.source ∈ changed then signed sign t.source else t.source,
    if t.target ∈ changed then signed sign t.target else t.target,
    .ofLabel (signed sign t.label))

/-- The contents of a difference and of its change graph. -/
structure Draws (d : Difference) (A B : Graph) (includeCommon : Bool) : Prop where
  mem_removedNodes : ∀ l, l ∈ d.removedNodes ↔ l ∈ A.labels \ B.labels
  mem_addedNodes : ∀ l, l ∈ d.addedNodes ↔ l ∈ B.labels \ A.labels
  mem_commonNodes : ∀ l, l ∈ d.commonNodes ↔ l ∈ A.labels ∩ B.labels
  mem_removedEdges : ∀ t, t ∈ d.removedEdges ↔ t ∈ A.triples \ B.triples
  mem_addedEdges : ∀ t, t ∈ d.addedEdges ↔ t ∈ B.triples \ A.triples
  mem_commonEdges : ∀ t, t ∈ d.commonEdges ↔ t ∈ A.triples ∩ B.triples
  /-- The nodes are those of the entities that are shown. -/
  mem_ids : ∀ id, id ∈ d.graph.nodes.map Node.id ↔ ∃ e, Shown A B includeCommon e ∧ e.id = id
  /-- A node has its id as its label and no other attribute. -/
  named : ∀ n ∈ d.graph.nodes, n.attributes = .ofLabel n.id ∧ n.label = n.id
  /-- The edges are the triples that were removed, then added, then the common ones. -/
  edges : d.graph.edges = numbered 0
    (d.removedEdges.toList.map (changedLink '-' (A.labels \ B.labels)) ++
      d.addedEdges.toList.map (changedLink '+' (B.labels \ A.labels)) ++
      if includeCommon then d.commonEdges.toList.map EdgeTriple.link else [])
  edgeCount : d.graph.edgeCount = d.removedEdges.toList.length + d.addedEdges.toList.length +
    if includeCommon then d.commonEdges.toList.length else 0
  /-- No edge is refused while the nodes and edges are added. -/
  accepted : (Graph.differenceHistory (some A) (some B) includeCommon).foldlM Graph.add .empty =
    .ok d.graph

section
variable {A B : Graph} {includeCommon : Bool}

/-- Graphs with nodes are compared. -/
theorem between_of_nodes (hA : A.nodes ≠ []) (hB : B.nodes ≠ []) (includeCommon : Bool) :
    between (some A) (some B) includeCommon = ofGraphs A B includeCommon := by
  rw [between, present?_some, present?_some, if_neg hA, if_neg hB]

/-- The ends of a triple that only one graph has are changed themselves or common. -/
theorem hasEnd_signed {sign : Char} {changed : SortedSet String} {t : EdgeTriple} {id : NodeId}
    (only : ∀ l, l ∈ changed ↔ l ∈ A.labels \ B.labels) (ht : t ∈ A.triples) :
    (t.signed sign changed).HasEnd id ↔ ∃ l, t.HasEnd l ∧
      (l ∈ A.labels \ B.labels ∧ signed sign l = id ∨ l ∈ A.labels ∩ B.labels ∧ l = id) := by
  have drawn : ∀ l, t.HasEnd l → (id = (if l ∈ changed then signed sign l else l) ↔
      l ∈ A.labels \ B.labels ∧ signed sign l = id ∨ l ∈ A.labels ∩ B.labels ∧ l = id) := by
    intro l hl
    have first : l ∈ A.labels := Graph.mem_labels_of_hasEnd ht hl
    by_cases second : l ∈ B.labels
    · have unchanged : l ∉ changed := fun h => ((only l).1 h).2 second
      simp [first, second, unchanged, eq_comm]
    · have changed : l ∈ changed := (only l).2 ⟨first, second⟩
      simp [first, second, changed, eq_comm]
  constructor
  · rintro (h | h)
    · exact ⟨t.source, .inl rfl, (drawn _ (.inl rfl)).1 h⟩
    · exact ⟨t.target, .inr rfl, (drawn _ (.inr rfl)).1 h⟩
  · rintro ⟨l, hl, h⟩
    have h := (drawn l hl).2 h
    rcases hl with rfl | rfl
    · exact .inl h
    · exact .inr h

/-! ## The sets of a difference -/

theorem mem_only {α : Type} [Ord α] [DecidableEq α] {s t : SortedSet α} {S T : Set α}
    (hs : ∀ a, a ∈ s ↔ a ∈ S) (ht : ∀ a, a ∈ t ↔ a ∈ T) (a : α) :
    a ∈ s.filter (· ∉ t) ↔ a ∈ S \ T := by
  rw [SortedSet.mem_filter, decide_eq_true_eq, hs, ht]
  rfl

theorem mem_both {α : Type} [Ord α] [DecidableEq α] {s t : SortedSet α} {S T : Set α}
    (hs : ∀ a, a ∈ s ↔ a ∈ S) (ht : ∀ a, a ∈ t ↔ a ∈ T) (a : α) :
    a ∈ s.filter (· ∈ t) ↔ a ∈ S ∩ T := by
  rw [SortedSet.mem_filter, decide_eq_true_eq, hs, ht]
  rfl

variable (A B includeCommon)

theorem mem_removedNodes (l : String) :
    l ∈ (ofGraphs A B includeCommon).removedNodes ↔ l ∈ A.labels \ B.labels :=
  mem_only (fun _ => Graph.mem_labelSet) (fun _ => Graph.mem_labelSet) l

theorem mem_addedNodes (l : String) :
    l ∈ (ofGraphs A B includeCommon).addedNodes ↔ l ∈ B.labels \ A.labels :=
  mem_only (fun _ => Graph.mem_labelSet) (fun _ => Graph.mem_labelSet) l

theorem mem_commonNodes (l : String) :
    l ∈ (ofGraphs A B includeCommon).commonNodes ↔ l ∈ A.labels ∩ B.labels :=
  mem_both (fun _ => Graph.mem_labelSet) (fun _ => Graph.mem_labelSet) l

theorem mem_removedEdges (t : EdgeTriple) :
    t ∈ (ofGraphs A B includeCommon).removedEdges ↔ t ∈ A.triples \ B.triples :=
  mem_only (fun _ => Graph.mem_tripleSet) (fun _ => Graph.mem_tripleSet) t

theorem mem_addedEdges (t : EdgeTriple) :
    t ∈ (ofGraphs A B includeCommon).addedEdges ↔ t ∈ B.triples \ A.triples :=
  mem_only (fun _ => Graph.mem_tripleSet) (fun _ => Graph.mem_tripleSet) t

theorem mem_commonEdges (t : EdgeTriple) :
    t ∈ (ofGraphs A B includeCommon).commonEdges ↔ t ∈ A.triples ∩ B.triples :=
  mem_both (fun _ => Graph.mem_tripleSet) (fun _ => Graph.mem_tripleSet) t

/-! ## The drawing -/

/-- The labels that are drawn as nodes. -/
def drawnLabels (d : Difference) (includeCommon : Bool) : List String :=
  d.removedNodes.toList.map (signed '-') ++ d.addedNodes.toList.map (signed '+') ++
    if includeCommon then d.commonNodes.toList else []

/-- The triples that are drawn as edges. -/
def drawnTriples (d : Difference) (includeCommon : Bool) : List EdgeTriple :=
  d.removedEdges.toList.map (·.signed '-' d.removedNodes) ++
    d.addedEdges.toList.map (·.signed '+' d.addedNodes) ++
    if includeCommon then d.commonEdges.toList else []

theorem graph_ofGraphs : (ofGraphs A B includeCommon).graph =
    ((ofGraphs A B includeCommon).drawnTriples includeCommon).foldl Graph.addTriple
      (((ofGraphs A B includeCommon).drawnLabels includeCommon).foldl Graph.ensureLabel .empty) :=
  rfl

variable {A B includeCommon}

/-- Labels are drawn for the entities that are shown wherever they are. -/
theorem mem_drawnLabels {id : NodeId} :
    id ∈ (ofGraphs A B includeCommon).drawnLabels includeCommon ↔
      (∃ l ∈ A.labels \ B.labels, signed '-' l = id) ∨
        (∃ l ∈ B.labels \ A.labels, signed '+' l = id) ∨
          includeCommon = true ∧ id ∈ A.labels ∩ B.labels := by
  cases includeCommon
  case false =>
    simp only [drawnLabels, List.mem_append, List.mem_map, ← SortedSet.mem_def, mem_removedNodes,
      mem_addedNodes, Bool.false_eq_true, if_false, List.not_mem_nil, or_false, false_and]
  case true =>
    simp only [drawnLabels, List.mem_append, List.mem_map, ← SortedSet.mem_def, mem_removedNodes,
      mem_addedNodes, mem_commonNodes, if_true, true_and, or_assoc]

/-- A label that is drawn at the end of a triple of the first graph only: it is signed if the second
graph does not have it. -/
def EndsOnly (A B : Graph) (sign : Char) (id : NodeId) : Prop :=
  ∃ t ∈ A.triples \ B.triples, ∃ l, t.HasEnd l ∧
    (l ∈ A.labels \ B.labels ∧ signed sign l = id ∨ l ∈ A.labels ∩ B.labels ∧ l = id)

theorem hasEnd_map_signed {sign : Char} {changed : SortedSet String} {edges : SortedSet EdgeTriple}
    {id : NodeId} (hchanged : ∀ l, l ∈ changed ↔ l ∈ A.labels \ B.labels)
    (hedges : ∀ t, t ∈ edges ↔ t ∈ A.triples \ B.triples) :
    (∃ t ∈ edges.toList.map (·.signed sign changed), t.HasEnd id) ↔ EndsOnly A B sign id := by
  constructor
  · rintro ⟨_, hdrawn, hend⟩
    obtain ⟨t, ht, rfl⟩ := List.mem_map.1 hdrawn
    have only := (hedges t).1 ht
    exact ⟨t, only, (hasEnd_signed hchanged only.1).1 hend⟩
  · rintro ⟨t, only, hend⟩
    exact ⟨_, List.mem_map_of_mem ((hedges t).2 only), (hasEnd_signed hchanged only.1).2 hend⟩

/-- The ends of the triples that are drawn. -/
theorem hasEnd_drawnTriples {id : NodeId} :
    (∃ t ∈ (ofGraphs A B includeCommon).drawnTriples includeCommon, t.HasEnd id) ↔
      EndsOnly A B '-' id ∨ EndsOnly B A '+' id ∨
        includeCommon = true ∧ ∃ t ∈ A.triples ∩ B.triples, t.HasEnd id := by
  rw [← hasEnd_map_signed (mem_removedNodes A B includeCommon) (mem_removedEdges A B includeCommon),
    ← hasEnd_map_signed (mem_addedNodes A B includeCommon) (mem_addedEdges A B includeCommon)]
  cases includeCommon
  case false =>
    simp only [drawnTriples, Bool.false_eq_true, if_false, List.append_nil, List.mem_append,
      or_and_right, exists_or, false_and, or_false]
  case true =>
    simp only [drawnTriples, if_true, List.mem_append, or_and_right, exists_or, true_and, or_assoc,
      ← SortedSet.mem_def, mem_commonEdges]

/-- Every node stands for an entity that is shown, and every such entity has a node. -/
theorem mem_ids_ofGraphs {id : NodeId} :
    id ∈ (ofGraphs A B includeCommon).graph.nodes.map Node.id ↔
      ∃ e, Shown A B includeCommon e ∧ e.id = id := by
  rw [graph_ofGraphs, Graph.mem_ids_drawing, mem_drawnLabels, hasEnd_drawnTriples]
  constructor
  · rintro ((⟨l, only, rfl⟩ | ⟨l, only, rfl⟩ | ⟨all, both⟩) | ends)
    · exact ⟨.removed l, .removed only, rfl⟩
    · exact ⟨.added l, .added only, rfl⟩
    · exact ⟨.common id, .common both (.inl all), rfl⟩
    rcases ends with ⟨t, ht, l, hl, ⟨only, rfl⟩ | ⟨both, rfl⟩⟩ |
      ⟨t, ht, l, hl, ⟨only, rfl⟩ | ⟨both, rfl⟩⟩ | ⟨all, t, ht, hl⟩
    · exact ⟨.removed l, .removed only, rfl⟩
    · exact ⟨.common l, .common both (.inr ⟨t, .inl ht, hl⟩), rfl⟩
    · exact ⟨.added l, .added only, rfl⟩
    · exact ⟨.common l, .common both.symm (.inr ⟨t, .inr ht, hl⟩), rfl⟩
    · have both : id ∈ A.labels ∩ B.labels :=
        ⟨Graph.mem_labels_of_hasEnd ht.1 hl, Graph.mem_labels_of_hasEnd ht.2 hl⟩
      exact ⟨.common id, .common both (.inl all), rfl⟩
  · rintro ⟨e, shown, rfl⟩
    cases shown with
    | removed only => exact .inl (.inl ⟨_, only, rfl⟩)
    | added only => exact .inl (.inr (.inl ⟨_, only, rfl⟩))
    | common both needed =>
      rcases needed with all | ⟨t, ht | ht, hl⟩
      · exact .inl (.inr (.inr ⟨all, both⟩))
      · exact .inr (.inl ⟨t, ht, _, hl, .inr ⟨both, rfl⟩⟩)
      · exact .inr (.inr (.inl ⟨t, ht, _, hl, .inr ⟨both.symm, rfl⟩⟩))

/-! ## The edges of a change graph -/

/-- A changed triple is drawn as the edge that its labels say. -/
theorem link_signed {sign : Char} {changed : SortedSet String} {S : Set String}
    (hchanged : ∀ l, l ∈ changed ↔ l ∈ S) (t : EdgeTriple) :
    (t.signed sign changed).link = changedLink sign S t := by
  have mark : ∀ l, (if l ∈ changed then signed sign l else l) =
      open Classical in if l ∈ S then signed sign l else l := by
    intro l
    by_cases hl : l ∈ S <;> simp [hchanged, hl]
  simp only [EdgeTriple.link, EdgeTriple.signed, changedLink, mark]

variable (A B includeCommon)

/-- The edges are the triples that were removed, then added, then the common ones. -/
theorem links_ofGraphs : (ofGraphs A B includeCommon).graph.links =
    (ofGraphs A B includeCommon).removedEdges.toList.map
        (changedLink '-' (A.labels \ B.labels)) ++
      (ofGraphs A B includeCommon).addedEdges.toList.map
        (changedLink '+' (B.labels \ A.labels)) ++
      if includeCommon then
        (ofGraphs A B includeCommon).commonEdges.toList.map EdgeTriple.link else [] := by
  rw [graph_ofGraphs, Graph.links_drawing, drawnTriples, List.map_append, List.map_append,
    List.map_map, List.map_map, apply_ite (List.map EdgeTriple.link), List.map_nil]
  congr 2
  · exact List.map_congr_left fun t _ => link_signed (mem_removedNodes A B includeCommon) t
  · exact List.map_congr_left fun t _ => link_signed (mem_addedNodes A B includeCommon) t

/-- Every triple is drawn. -/
theorem edgeCount_ofGraphs : (ofGraphs A B includeCommon).graph.edgeCount =
    (ofGraphs A B includeCommon).removedEdges.toList.length +
      (ofGraphs A B includeCommon).addedEdges.toList.length +
        if includeCommon then (ofGraphs A B includeCommon).commonEdges.toList.length else 0 := by
  have count := congrArg List.length (links_ofGraphs A B includeCommon)
  rw [Graph.links_eq, List.length_map, List.length_append, List.length_append, List.length_map,
    List.length_map, apply_ite List.length, List.length_map] at count
  exact count

variable {A B}

/-- **What a change graph shows.** The change graph of two graphs with nodes has a node for each
label that was removed or added, under the label with its sign, and for a label that is common if
what is common is shown or a changed triple ends at it. Each node has its id as its label. The edges
are the removed triples, the added ones, and if they are to be shown the common ones, each kind
sorted; a changed triple is signed, and so are those of its ends that are changed themselves. None
of the edges is refused. -/
theorem between_draws (hA : A.nodes ≠ []) (hB : B.nodes ≠ []) :
    (between (some A) (some B) includeCommon).Draws A B includeCommon := by
  rw [between_of_nodes hA hB]
  exact {
    mem_removedNodes := mem_removedNodes A B includeCommon
    mem_addedNodes := mem_addedNodes A B includeCommon
    mem_commonNodes := mem_commonNodes A B includeCommon
    mem_removedEdges := mem_removedEdges A B includeCommon
    mem_addedEdges := mem_addedEdges A B includeCommon
    mem_commonEdges := mem_commonEdges A B includeCommon
    mem_ids := fun _ => mem_ids_ofGraphs
    named := by
      intro n hn
      have attributes := Graph.attributes_of_mem_drawing _ _ hn
      refine ⟨attributes, ?_⟩
      rw [Node.label, attributes, Attributes.label_ofLabel]
    edges := by rw [← links_ofGraphs, Graph.numbered_links]
    edgeCount := edgeCount_ofGraphs A B includeCommon
    accepted := by
      rw [Graph.differenceHistory, present?_some, present?_some, if_neg hA, if_neg hB]
      exact Graph.foldlM_drawing _ _ }

end

/-- A function that calls another one. -/
def callOf (callee : String) : Graph where
  nodes := [⟨"caller", .ofLabel "main"⟩, ⟨"callee", .ofLabel callee⟩]
  arcs := [⟨0, 1, .ofLabel "call"⟩]
  nodup_ids := by simp
  arcs_inside := by simp

/-- The caller is common to both graphs, and is shown since the changed calls start there. -/
theorem draws_callOf :
    ((callOf "old").nodes ≠ [] ∧ (callOf "new").nodes ≠ []) ∧
      (between (some (callOf "old")) (some (callOf "new")) false).Draws (callOf "old")
        (callOf "new") false ∧
      (between (some (callOf "old")) (some (callOf "new")) false).graph.nodes.map Node.id =
        ["-old", "+new", "main"] ∧
      (between (some (callOf "old")) (some (callOf "new")) false).graph.edges.map
          (fun e => (e.source, e.target, e.label)) =
        [("main", "-old", "-call"), ("main", "+new", "+call")] := by
  have nodes : (callOf "old").nodes ≠ [] ∧ (callOf "new").nodes ≠ [] := by decide
  exact ⟨nodes, between_draws false nodes.1 nodes.2, by decide, by decide⟩

end Difference

end GraphCompare
