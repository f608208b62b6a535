import Mathlib
import GraphCompare.Difference

/-!
# When two graphs do not differ

`Graph.SameLabels` says of two graphs what the difference asks about them: the labels of the nodes
and the label triples of the edges are the same as sets, and a graph without nodes is like no graph
with nodes. The difference does not test this. It draws what changed and looks whether the drawing
is empty, which holds exactly if the graphs have the same labels
(`Difference.isEmpty_between_iff`).
-/

namespace GraphCompare

namespace Graph

/-- The labels of the nodes. -/
def labels (g : Graph) : Set String := {l | ∃ n ∈ g.nodes, n.label = l}

/-- The label triples of the edges: the label of the source, that of the target, and their own. -/
def triples (g : Graph) : Set EdgeTriple := {t | ∃ a ∈ g.arcs, g.triple a = t}

/-- Two graphs have the same labels: neither has nodes, or both have and the labels of the nodes and
the label triples of the edges are the same, however often each occurs. -/
def SameLabels (A B : Graph) : Prop :=
  (A.nodes = [] ∧ B.nodes = []) ∨
    (A.nodes ≠ [] ∧ B.nodes ≠ [] ∧ A.labels = B.labels ∧ A.triples = B.triples)

variable {g A B : Graph}

theorem mem_labelSet {l : String} : l ∈ g.labelSet ↔ l ∈ g.labels := by
  rw [labelSet, SortedSet.mem_ofList, List.mem_map]
  rfl

theorem mem_tripleSet {t : EdgeTriple} : t ∈ g.tripleSet ↔ t ∈ g.triples := by
  rw [tripleSet, SortedSet.mem_ofList, List.mem_map]
  rfl

/-- Only a graph without nodes has no labels. -/
theorem labels_eq_empty_iff : g.labels = ∅ ↔ g.nodes = [] := by
  rw [Set.eq_empty_iff_forall_notMem, List.eq_nil_iff_forall_not_mem]
  exact ⟨fun h n hn => h n.label ⟨n, hn, rfl⟩, fun h l ⟨n, hn, _⟩ => h n hn⟩

/-! ## Drawing -/

/-- Adding nodes leaves no graph without nodes. -/
theorem nodes_ensureLabel_ne_nil (l : String) : (g.ensureLabel l).nodes ≠ [] := by
  rw [ensureLabel, nodes_ensureNode]
  split <;> rename_i h
  · exact fun hn => by simp [contains, node?, hn] at h
  · simp

theorem nodes_addTriple_ne_nil (t : EdgeTriple) : (g.addTriple t).nodes ≠ [] := by
  rw [addTriple]
  split <;> rename_i h
  · obtain ⟨_, _, _, _, hn, _⟩ := addEdge_eq_ok.1 h
    rw [hn]
    exact nodes_ensureLabel_ne_nil _
  · exact nodes_ensureLabel_ne_nil _

end Graph

/-- A fold that nothing leads back to the start of ends there only if it has nothing to do. -/
theorem foldl_eq_nil_iff {α : Type} {f : Graph → α → Graph} (hf : ∀ g a, (f g a).nodes ≠ [])
    (l : List α) (g : Graph) : (l.foldl f g).nodes = [] ↔ l = [] ∧ g.nodes = [] := by
  induction l generalizing g with
  | nil => simp
  | cons a l ih => simp [ih, hf]

namespace Difference

/-- A change graph without nodes has no edges either. -/
theorem isEmpty_iff (d : Difference) : d.isEmpty ↔ d.graph.nodes = [] := by
  rw [isEmpty, Bool.and_eq_true, beq_iff_eq, beq_iff_eq, Graph.nodeCount, Graph.edgeCount,
    List.length_eq_zero_iff, List.length_eq_zero_iff]
  refine ⟨And.left, fun hn => ⟨hn, List.eq_nil_iff_forall_not_mem.2 fun a ha => ?_⟩⟩
  have inside := (d.graph.arcs_inside a ha).1
  rw [hn] at inside
  exact absurd inside (Nat.not_lt_zero _)

/-- Where what is common is left out, nothing is drawn exactly if nothing was added or removed. -/
theorem nodes_draw_eq_nil (addedNodes removedNodes commonNodes : SortedSet String)
    (addedEdges removedEdges commonEdges : SortedSet EdgeTriple) :
    (draw false addedNodes removedNodes commonNodes addedEdges removedEdges
      commonEdges).nodes = [] ↔
      (removedNodes.toList = [] ∧ addedNodes.toList = []) ∧
        removedEdges.toList = [] ∧ addedEdges.toList = [] := by
  rw [draw, foldl_eq_nil_iff fun _ => Graph.nodes_addTriple_ne_nil,
    foldl_eq_nil_iff fun _ => Graph.nodes_ensureLabel_ne_nil]
  simp [Graph.empty, and_comm]

/-- No element is left exactly if all of them are in the other set. -/
theorem toList_filter_notMem_eq_nil {α : Type} [Ord α] [DecidableEq α] (s t : SortedSet α) :
    (s.filter (· ∉ t)).toList = [] ↔ ∀ a ∈ s, a ∈ t := by
  rw [List.eq_nil_iff_forall_not_mem]
  simp only [← SortedSet.mem_def, SortedSet.mem_filter, decide_eq_true_eq, not_and, not_not]

/-- The difference of two graphs with nodes is empty exactly if they have the same labels and the
same label triples. -/
theorem isEmpty_ofGraphs_iff (A B : Graph) :
    (ofGraphs A B false).isEmpty ↔ A.labels = B.labels ∧ A.triples = B.triples := by
  rw [isEmpty_iff, ofGraphs, nodes_draw_eq_nil]
  simp only [toList_filter_notMem_eq_nil, Graph.mem_labelSet, Graph.mem_tripleSet]
  rw [Set.Subset.antisymm_iff, Set.Subset.antisymm_iff]
  rfl

/-- A graph without nodes counts as absent. -/
theorem present?_some (g : Graph) : present? (some g) = if g.nodes = [] then none else some g := by
  cases h : g.nodes with
  | nil => simp [present?, Graph.isEmpty, h]
  | cons n l => simp [present?, Graph.isEmpty, h]

/-- **The difference of two graphs is empty exactly if they have the same labels.** -/
theorem isEmpty_between_iff (A B : Graph) :
    (between (some A) (some B) false).isEmpty ↔ A.SameLabels B := by
  rw [between, present?_some, present?_some, Graph.SameLabels]
  by_cases hA : A.nodes = []
  · by_cases hB : B.nodes = []
    · simp [hA, hB, isEmpty_iff, unchanged, Graph.empty]
    · simp [hA, hB, isEmpty_iff, unchanged]
  · by_cases hB : B.nodes = []
    · simp [hA, hB, isEmpty_iff, unchanged]
    · simp [hA, hB, isEmpty_ofGraphs_iff]

end Difference

end GraphCompare
