import Mathlib
import GraphCompare.Proofs.Difference.Drawing

/-!
# Comparing with nothing, and finding nothing changed

A graph that is not there and a graph without nodes are the same to a comparison: neither is present
(`Difference.present?_eq_none_iff`), and a difference depends on what is present alone. Against
nothing a graph stands as it is, and counts as unchanged.

Of two graphs with nodes it is asked in two ways whether they differ. One looks whether anything is
drawn, the other whether anything was removed or added. Both come to the same question, whether the
two have the same labels and the same label triples (`Difference.isEmpty_ofGraphs_iff`,
`Difference.hasChanges_ofGraphs_iff`), as long as what is common is left out. If it is shown, there
is always something to draw, since the labels of a graph with nodes are removed or common
(`Difference.isEmpty_ofGraphs_true`).
-/

namespace GraphCompare.Difference

/-! ## What is present -/

/-- A graph that is not there, or that has no nodes. -/
def Absent (g : Option Graph) : Prop := ∀ h ∈ g, h.nodes = []

variable {first second : Option Graph}

theorem present?_eq_none_iff {g : Option Graph} : present? g = none ↔ Absent g := by
  cases g with
  | none => exact ⟨fun _ => nofun, fun _ => rfl⟩
  | some h =>
    rw [present?_some, ite_eq_left_iff, Absent]
    simp

theorem present?_of_nodes {g : Graph} (nodes : g.nodes ≠ []) : present? (some g) = some g := by
  rw [present?_some, if_neg nodes]

/-- A comparison with nothing on the first side keeps the second graph. -/
theorem between_absent_left {g : Graph} (absent : Absent first) (nodes : g.nodes ≠ [])
    (includeCommon : Bool) : between first (some g) includeCommon = unchanged g := by
  rw [between, present?_eq_none_iff.2 absent, present?_of_nodes nodes]

/-- A comparison with nothing on the second side keeps the first graph. -/
theorem between_absent_right {g : Graph} (absent : Absent second) (nodes : g.nodes ≠ [])
    (includeCommon : Bool) : between (some g) second includeCommon = unchanged g := by
  rw [between, present?_eq_none_iff.2 absent, present?_of_nodes nodes]

/-- Whatever is absent on the first side, the difference is the same. -/
theorem between_congr_left {nothing : Option Graph} (absent : Absent first)
    (absent' : Absent nothing) (second : Option Graph) (includeCommon : Bool) :
    between first second includeCommon = between nothing second includeCommon := by
  rw [between, between, present?_eq_none_iff.2 absent, present?_eq_none_iff.2 absent']

/-- Whatever is absent on the second side, the difference is the same. -/
theorem between_congr_right {nothing : Option Graph} (absent : Absent second)
    (absent' : Absent nothing) (first : Option Graph) (includeCommon : Bool) :
    between first second includeCommon = between first nothing includeCommon := by
  rw [between, between, present?_eq_none_iff.2 absent, present?_eq_none_iff.2 absent']

theorem hasChanges_unchanged (g : Graph) : (unchanged g).hasChanges = false := rfl

/-! ## What is changed -/

theorem hasChanges_eq_false_iff (d : Difference) : d.hasChanges = false ↔
    (d.addedNodes.toList = [] ∧ d.removedNodes.toList = []) ∧
      d.addedEdges.toList = [] ∧ d.removedEdges.toList = [] := by
  simp only [hasChanges, SortedSet.isEmpty, Bool.not_eq_false', Bool.and_eq_true,
    List.isEmpty_iff, and_assoc]

/-- Nothing was changed exactly if the two graphs have the same labels and the same triples. -/
theorem hasChanges_ofGraphs_iff (A B : Graph) (includeCommon : Bool) :
    (ofGraphs A B includeCommon).hasChanges = false ↔
      A.labels = B.labels ∧ A.triples = B.triples := by
  rw [hasChanges_eq_false_iff, ofGraphs]
  simp only [toList_filter_notMem_eq_nil, Graph.mem_labelSet, Graph.mem_tripleSet]
  rw [Set.Subset.antisymm_iff, Set.Subset.antisymm_iff, and_comm (a := A.labels ⊆ B.labels),
    and_comm (a := A.triples ⊆ B.triples)]
  rfl

/-- Where what is common is shown, something is drawn for every label of the first graph. -/
theorem isEmpty_ofGraphs_true {A : Graph} (hA : A.nodes ≠ []) (B : Graph) :
    (ofGraphs A B true).isEmpty = false := by
  rw [← Bool.not_eq_true, isEmpty_iff]
  intro drawn
  obtain ⟨n, hn⟩ := List.exists_mem_of_ne_nil _ hA
  have label : n.label ∈ A.labels := ⟨n, hn, rfl⟩
  have shown : ∃ e, Shown A B true e := by
    by_cases second : n.label ∈ B.labels
    · exact ⟨_, .common ⟨label, second⟩ (.inl rfl)⟩
    · exact ⟨_, .removed ⟨label, second⟩⟩
  obtain ⟨e, he⟩ := shown
  have node := mem_ids_ofGraphs.2 ⟨e, he, rfl⟩
  rw [drawn] at node
  exact List.not_mem_nil node

/-- **Nothing to compare with and nothing to show.** On either side of a comparison it makes no
difference whether a graph is not there or has no nodes. If just one side has nodes, the change
graph is that graph as it stands, and nothing counts as changed. If both have nodes, the change
graph without what is common is empty exactly if nothing was changed, and that is exactly if the two
have the same labels and the same label triples of edges, however often; with what is common it is
never empty, and what counts as changed is the same. -/
theorem between_presence (first second : Option Graph) (includeCommon : Bool) :
    (∀ nothing nothing' : Option Graph, Absent nothing → Absent nothing' →
      between nothing second includeCommon = between nothing' second includeCommon ∧
        between first nothing includeCommon = between first nothing' includeCommon) ∧
    (∀ g : Graph, g.nodes ≠ [] →
      (Absent first ∧ second = some g ∨ first = some g ∧ Absent second) →
        (between first second includeCommon).graph = g ∧
          (between first second includeCommon).hasChanges = false) ∧
    (∀ A ∈ first, ∀ B ∈ second, A.nodes ≠ [] → B.nodes ≠ [] →
      ((between first second false).isEmpty ↔ (between first second false).hasChanges = false) ∧
      ((between first second false).hasChanges = false ↔
        A.labels = B.labels ∧ A.triples = B.triples) ∧
      (between first second true).isEmpty = false ∧
      (between first second true).hasChanges = (between first second false).hasChanges) := by
  refine ⟨fun nothing nothing' absent absent' => ?_, ?_, ?_⟩
  · exact ⟨between_congr_left absent absent' second includeCommon,
      between_congr_right absent absent' first includeCommon⟩
  · rintro g nodes (⟨absent, rfl⟩ | ⟨rfl, absent⟩)
    · rw [between_absent_left absent nodes]
      exact ⟨rfl, hasChanges_unchanged g⟩
    · rw [between_absent_right absent nodes]
      exact ⟨rfl, hasChanges_unchanged g⟩
  · rintro A rfl B rfl hA hB
    rw [between_of_nodes hA hB, between_of_nodes hA hB]
    refine ⟨?_, hasChanges_ofGraphs_iff A B false, isEmpty_ofGraphs_true hA B, rfl⟩
    rw [isEmpty_ofGraphs_iff, hasChanges_ofGraphs_iff]

/-- A function that logs once, or as often as it is asked to. -/
def logging (times : ℕ) : Graph where
  nodes := [⟨"1", .ofLabel "main"⟩, ⟨"2", .ofLabel "log"⟩]
  arcs := List.replicate times ⟨0, 1, .ofLabel "call"⟩
  nodup_ids := by simp
  arcs_inside := by simp

/-- Nothing stands for a graph without nodes. How often a function logs is no change, whether it
does is one though no label of a node is. -/
theorem presence_logging :
    ((Absent none ∧ Absent (some .empty)) ∧
      between none (some (logging 1)) true = between (some .empty) (some (logging 1)) true) ∧
    ((between none (some (logging 1)) true).graph = logging 1 ∧
      (between none (some (logging 1)) true).hasChanges = false) ∧
    ((logging 0).nodes ≠ [] ∧ (logging 1).nodes ≠ [] ∧ (logging 2).nodes ≠ []) ∧
    (between (some (logging 1)) (some (logging 2)) false).isEmpty ∧
    (between (some (logging 1)) (some (logging 2)) true).isEmpty = false ∧
    ((logging 0).labels = (logging 1).labels ∧
      (between (some (logging 0)) (some (logging 1)) false).isEmpty = false) := by
  have nodes : ∀ times, (logging times).nodes ≠ [] := fun _ => by simp [logging]
  have absent : Absent none ∧ Absent (some .empty) :=
    ⟨fun _ h => (by cases h), fun _ h => by cases h; rfl⟩
  have alone := between_presence none (some (logging 1)) true
  have again := (between_presence (some (logging 1)) (some (logging 2)) false).2.2 _ rfl _ rfl
    (nodes 1) (nodes 2)
  refine ⟨⟨absent, (alone.1 _ _ absent.1 absent.2).1⟩,
    alone.2.1 _ (nodes 1) (.inl ⟨absent.1, rfl⟩), ⟨nodes 0, nodes 1, nodes 2⟩, ?_,
    again.2.2.1, rfl, by decide⟩
  exact again.1.2 (by decide)

end GraphCompare.Difference
