import Mathlib
import GraphCompare.Proofs.Difference.Drawing

/-!
# How a difference divides two graphs

What was removed, what was added and what is common divide the labels of two graphs: each label of
the first graph was removed or is common, each label of the second was added or is common, and none
has two of these lots (`Divides`). The label triples of the edges are divided in the same way. They
are read off all edges: the ends of an edge are looked up by their ids, and are always found
(`Graph.map_tripleOf?_edges`).

The two divisions fit together, since an end of an edge is a label of its graph. An edge that both
graphs have ends at labels that both have, and an edge at a label that only one of them has is an
edge of that graph alone (`Difference.between_sorts`).
-/

namespace GraphCompare

/-- The elements of a sorted set, without their order. -/
def SortedSet.elements {α : Type} [Ord α] (s : SortedSet α) : Set α := {a | a ∈ s}

theorem SortedSet.elements_eq {α : Type} [Ord α] {s : SortedSet α} {S : Set α}
    (h : ∀ a, a ∈ s ↔ a ∈ S) : s.elements = S :=
  Set.ext h

/-- Three sets without common elements divide two others: what the first has alone, what the second
has alone, and what both have. -/
structure Divides {α : Type} (removed added common first second : Set α) : Prop where
  removed_common : Disjoint removed common
  removed_union_common : removed ∪ common = first
  added_common : Disjoint added common
  added_union_common : added ∪ common = second
  added_removed : Disjoint added removed

/-- Two sets are divided by their differences and their intersection. -/
theorem divides_sdiff {α : Type} (S T : Set α) : Divides (S \ T) (T \ S) (S ∩ T) S T where
  removed_common := Set.disjoint_sdiff_inter
  removed_union_common := Set.sdiff_union_inter S T
  added_common := Set.inter_comm T S ▸ Set.disjoint_sdiff_inter
  added_union_common := Set.inter_comm T S ▸ Set.sdiff_union_inter T S
  added_removed := disjoint_sdiff_sdiff

namespace Graph

variable {g A B : Graph} {t : EdgeTriple} {l : String}

/-! ## The triples of edges -/

/-- The label triple of an edge, its ends looked up by their ids. There is none if an end is not
found. -/
def tripleOf? (g : Graph) (e : Edge) : Option EdgeTriple := do
  let source ← g.node? e.source
  let target ← g.node? e.target
  return ⟨source.label, target.label, e.label⟩

/-- The label triples of all edges. -/
def edgeTriples (g : Graph) : Set EdgeTriple := {t | ∃ e ∈ g.edges, g.tripleOf? e = some t}

/-- Every edge has a triple, which is that of its arc. -/
theorem map_tripleOf?_edges (g : Graph) :
    g.edges.map g.tripleOf? = g.arcs.map fun a => some (g.triple a) := by
  have found : ∀ i, i < g.nodes.length → ∃ n, g.node? (g.idAt i) = some n ∧ n.label = g.labelAt i :=
    fun i hi => ⟨g.nodes[i], node?_eq_some_iff.2 ⟨List.getElem_mem hi, by simp [idAt, hi]⟩,
      by simp [labelAt, hi]⟩
  refine map_edges fun a ha id => ?_
  obtain ⟨s, hs, source⟩ := found _ (g.arcs_inside a ha).1
  obtain ⟨t, ht, target⟩ := found _ (g.arcs_inside a ha).2
  simp only [tripleOf?, hs, ht, Option.bind_eq_bind, Option.bind_some, pure, triple, ← source,
    ← target]
  rfl

theorem exists_tripleOf? {e : Edge} (he : e ∈ g.edges) :
    ∃ t ∈ g.triples, g.tripleOf? e = some t := by
  have image := List.mem_map_of_mem (f := g.tripleOf?) he
  rw [map_tripleOf?_edges] at image
  obtain ⟨a, ha, h⟩ := List.mem_map.1 image
  exact ⟨g.triple a, ⟨a, ha, rfl⟩, h.symm⟩

/-- The triples of the edges are those of the arcs. -/
theorem edgeTriples_eq (g : Graph) : g.edgeTriples = g.triples := by
  ext t
  constructor
  · rintro ⟨e, he, h⟩
    obtain ⟨t', ht', h'⟩ := exists_tripleOf? he
    rwa [← Option.some.inj (h'.symm.trans h)]
  · rintro ⟨a, ha, rfl⟩
    have image : some (g.triple a) ∈ g.edges.map g.tripleOf? := by
      rw [map_tripleOf?_edges]
      exact List.mem_map_of_mem ha
    obtain ⟨e, he, h⟩ := List.mem_map.1 image
    exact ⟨e, he, h⟩

/-- The triple of an edge is one that the other graph does not have or one that both have. -/
theorem exists_triple_only_or_both {e : Edge} (he : e ∈ A.edges) (B : Graph) :
    ∃ t, A.tripleOf? e = some t ∧ (t ∈ A.triples \ B.triples ∨ t ∈ A.triples ∩ B.triples) := by
  obtain ⟨t, ht, h⟩ := exists_tripleOf? he
  rw [← Set.sdiff_union_inter A.triples B.triples] at ht
  exact ⟨t, h, ht⟩

/-! ## Labels and triples together -/

/-- An end of a triple is a label that both graphs have, or that only the graph of the triple
has. -/
theorem end_only_or_both (ht : t ∈ A.triples) (hl : t.HasEnd l) :
    l ∈ A.labels \ B.labels ∨ l ∈ A.labels ∩ B.labels := by
  have first := mem_labels_of_hasEnd ht hl
  by_cases second : l ∈ B.labels
  · exact .inr ⟨first, second⟩
  · exact .inl ⟨first, second⟩

/-- The ends of a triple that both graphs have are labels that both have. -/
theorem end_both (ht : t ∈ A.triples ∩ B.triples) (hl : t.HasEnd l) : l ∈ A.labels ∩ B.labels :=
  ⟨mem_labels_of_hasEnd ht.1 hl, mem_labels_of_hasEnd ht.2 hl⟩

/-- A triple of either graph at a label that only the first has is one that only the first has. -/
theorem triple_only_of_end (ht : t ∈ A.triples ∪ B.triples) (only : l ∈ A.labels \ B.labels)
    (hl : t.HasEnd l) : t ∈ A.triples \ B.triples := by
  have second : t ∉ B.triples := fun h => only.2 (mem_labels_of_hasEnd h hl)
  exact ⟨ht.resolve_right second, second⟩

end Graph

namespace Difference

/-- A difference is another one with the two sides exchanged: what was added to the one was removed
from the other, and both have the same in common. -/
structure Mirrors (d e : Difference) : Prop where
  addedNodes : d.addedNodes = e.removedNodes
  removedNodes : d.removedNodes = e.addedNodes
  commonNodes : d.commonNodes = e.commonNodes
  addedEdges : d.addedEdges = e.removedEdges
  removedEdges : d.removedEdges = e.addedEdges
  commonEdges : d.commonEdges = e.commonEdges

/-- A difference sorts the labels and the label triples of two graphs. -/
structure Sorts (d : Difference) (A B : Graph) : Prop where
  nodes : Divides d.removedNodes.elements d.addedNodes.elements d.commonNodes.elements
    A.labels B.labels
  edges : Divides d.removedEdges.elements d.addedEdges.elements d.commonEdges.elements
    A.edgeTriples B.edgeTriples
  /-- No edge of the first graph is left out. -/
  first_edges : ∀ e ∈ A.edges, ∃ t, A.tripleOf? e = some t ∧
    (t ∈ d.removedEdges ∨ t ∈ d.commonEdges)
  /-- No edge of the second graph is left out. -/
  second_edges : ∀ e ∈ B.edges, ∃ t, B.tripleOf? e = some t ∧
    (t ∈ d.addedEdges ∨ t ∈ d.commonEdges)
  removed_ends : ∀ t ∈ d.removedEdges, ∀ l, t.HasEnd l → l ∈ d.removedNodes ∨ l ∈ d.commonNodes
  added_ends : ∀ t ∈ d.addedEdges, ∀ l, t.HasEnd l → l ∈ d.addedNodes ∨ l ∈ d.commonNodes
  common_ends : ∀ t ∈ d.commonEdges, ∀ l, t.HasEnd l → l ∈ d.commonNodes
  /-- A triple at a removed label was removed. -/
  removed_of_end : ∀ t ∈ A.edgeTriples ∪ B.edgeTriples, ∀ l ∈ d.removedNodes, t.HasEnd l →
    t ∈ d.removedEdges
  /-- A triple at an added label was added. -/
  added_of_end : ∀ t ∈ A.edgeTriples ∪ B.edgeTriples, ∀ l ∈ d.addedNodes, t.HasEnd l →
    t ∈ d.addedEdges

section
variable (A B : Graph) (includeCommon : Bool)

/-- Comparing in the other order exchanges the sides. -/
theorem mirrors_ofGraphs :
    (ofGraphs A B includeCommon).Mirrors (ofGraphs B A includeCommon) where
  addedNodes := rfl
  removedNodes := rfl
  commonNodes := SortedSet.ext_mem fun l => by
    rw [← SortedSet.mem_def, ← SortedSet.mem_def, mem_commonNodes, mem_commonNodes, Set.inter_comm]
  addedEdges := rfl
  removedEdges := rfl
  commonEdges := SortedSet.ext_mem fun t => by
    rw [← SortedSet.mem_def, ← SortedSet.mem_def, mem_commonEdges, mem_commonEdges, Set.inter_comm]

/-- The difference of two graphs with nodes sorts their labels and triples. -/
theorem sorts_ofGraphs : (ofGraphs A B includeCommon).Sorts A B where
  nodes := by
    rw [SortedSet.elements_eq (mem_removedNodes A B includeCommon),
      SortedSet.elements_eq (mem_addedNodes A B includeCommon),
      SortedSet.elements_eq (mem_commonNodes A B includeCommon)]
    exact divides_sdiff A.labels B.labels
  edges := by
    rw [SortedSet.elements_eq (mem_removedEdges A B includeCommon),
      SortedSet.elements_eq (mem_addedEdges A B includeCommon),
      SortedSet.elements_eq (mem_commonEdges A B includeCommon), A.edgeTriples_eq,
      B.edgeTriples_eq]
    exact divides_sdiff A.triples B.triples
  first_edges := by
    intro e he
    obtain ⟨t, h, ht⟩ := Graph.exists_triple_only_or_both he B
    exact ⟨t, h, ht.imp (mem_removedEdges A B includeCommon t).2
      (mem_commonEdges A B includeCommon t).2⟩
  second_edges := by
    intro e he
    obtain ⟨t, h, ht⟩ := Graph.exists_triple_only_or_both he A
    rw [Set.inter_comm] at ht
    exact ⟨t, h, ht.imp (mem_addedEdges A B includeCommon t).2
      (mem_commonEdges A B includeCommon t).2⟩
  removed_ends t ht l hl := by
    rw [mem_removedNodes, mem_commonNodes]
    exact Graph.end_only_or_both ((mem_removedEdges A B includeCommon t).1 ht).1 hl
  added_ends t ht l hl := by
    rw [mem_addedNodes, mem_commonNodes, Set.inter_comm]
    exact Graph.end_only_or_both ((mem_addedEdges A B includeCommon t).1 ht).1 hl
  common_ends t ht l hl := by
    rw [mem_commonNodes]
    exact Graph.end_both ((mem_commonEdges A B includeCommon t).1 ht) hl
  removed_of_end t ht l only hl := by
    rw [mem_removedNodes] at only
    rw [A.edgeTriples_eq, B.edgeTriples_eq] at ht
    rw [mem_removedEdges]
    exact Graph.triple_only_of_end ht only hl
  added_of_end t ht l only hl := by
    rw [mem_addedNodes] at only
    rw [A.edgeTriples_eq, B.edgeTriples_eq, Set.union_comm] at ht
    rw [mem_addedEdges]
    exact Graph.triple_only_of_end ht only hl

end

/-- Exchanging the sides exchanges the difference, whether they are there or not. -/
theorem mirrors_between (first second : Option Graph) (includeCommon : Bool) :
    (between first second includeCommon).Mirrors (between second first includeCommon) := by
  rw [between, between]
  cases present? first with
  | none => cases present? second <;> exact ⟨rfl, rfl, rfl, rfl, rfl, rfl⟩
  | some A =>
    cases present? second with
    | none => exact ⟨rfl, rfl, rfl, rfl, rfl, rfl⟩
    | some B => exact mirrors_ofGraphs A B includeCommon

/-- **The sets of a difference.** Comparing two graphs in the other order, either of which may be
absent or without nodes, exchanges what was removed and what was added and leaves what is common. If
both have nodes, what was removed and what is common divide the labels of the first graph, what was
added and what is common those of the second, and nothing was both added and removed; the label
triples of all edges are divided likewise. The ends of a triple were changed with it or are common,
those of a common triple are common, and a triple at a label that was removed or added was removed
or added itself. -/
theorem between_sorts (first second : Option Graph) (includeCommon : Bool) :
    (between first second includeCommon).Mirrors (between second first includeCommon) ∧
      ∀ A ∈ first, ∀ B ∈ second, A.nodes ≠ [] → B.nodes ≠ [] →
        (between first second includeCommon).Sorts A B := by
  refine ⟨mirrors_between first second includeCommon, ?_⟩
  rintro A rfl B rfl hA hB
  rw [between_of_nodes hA hB]
  exact sorts_ofGraphs A B includeCommon

/-- A function that calls another one, logs twice and may start again. -/
def loggedCallOf (callee : String) : Graph where
  nodes := [⟨"caller", .ofLabel "main"⟩, ⟨"callee", .ofLabel callee⟩, ⟨"logger", .ofLabel "log"⟩]
  arcs := [⟨0, 1, .ofLabel "call"⟩, ⟨0, 2, .ofLabel "call"⟩, ⟨0, 2, .ofLabel "call"⟩,
    ⟨0, 0, .ofLabel "retry"⟩]
  nodup_ids := by simp
  arcs_inside := by simp

/-- Only the call of the other function was removed, since it ends at a label that was removed. -/
theorem sorts_loggedCallOf :
    ((loggedCallOf "old").nodes ≠ [] ∧ (loggedCallOf "new").nodes ≠ []) ∧
      (between (some (loggedCallOf "old")) (some (loggedCallOf "new")) false).Sorts
        (loggedCallOf "old") (loggedCallOf "new") ∧
      (between (some (loggedCallOf "old")) (some (loggedCallOf "new")) false).removedEdges.toList =
        [⟨"main", "old", "call"⟩] ∧
      (between (some (loggedCallOf "old")) (some (loggedCallOf "new")) false).commonEdges.toList =
        [⟨"main", "log", "call"⟩, ⟨"main", "main", "retry"⟩] := by
  have nodes : (loggedCallOf "old").nodes ≠ [] ∧ (loggedCallOf "new").nodes ≠ [] := by decide
  have sorts := (between_sorts (some (loggedCallOf "old")) (some (loggedCallOf "new")) false).2
    _ rfl _ rfl nodes.1 nodes.2
  exact ⟨nodes, sorts, by decide, by decide⟩

end Difference

end GraphCompare
