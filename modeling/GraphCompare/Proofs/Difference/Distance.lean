import Mathlib
import GraphCompare.Proofs.Difference.Absence
import GraphCompare.Proofs.Difference.Sharing
import GraphCompare.Proofs.Edit.Metric
import GraphCompare.Proofs.Similarity

/-!
# What a difference tells about the distance

The difference of two graphs and their distance are computed from different things, the one from
sets of labels and the other from matchings of nodes. Still each bounds the other.

A node whose label the other graph does not have costs something in every matching, since it is left
over or changes its label (`Matching.card_newLabels_le_cost`). So the distance is at least the
number of labels that were added, and at least that of those removed.

If no two nodes of a graph have the same label and no two edges the same triple, the labels tell
which node goes where (`Graph.byLabel`). That matching saves two for every label and every triple
that is common (`Graph.two_mul_common_le_saving`), and then what it costs is at most what is not
common, so the distance is at most the number of labels and triples that were added or removed
(`Graph.distance_le_changes`).
-/

namespace GraphCompare

/-- A set that a finite one covers is no larger. -/
theorem ncard_le_card_of_subset {α : Type} {S : Set α} {F : Finset α} (cover : S ⊆ F) :
    S.ncard ≤ F.card :=
  (Set.ncard_le_ncard cover F.finite_toSet).trans_eq (Set.ncard_coe_finset F)

/-! ## At least -/

/-- A node whose label the other side does not have is left over or changes its label. -/
theorem Matching.card_newLabels_le_cost {G H : Shape} (m : Matching G H) :
    (H.nodes.filter fun v => ∀ u ∈ G.nodes, G.label u ≠ H.label v).card ≤ m.cost := by
  have cover : (H.nodes.filter fun v => ∀ u ∈ G.nodes, G.label u ≠ H.label v) ⊆
      (H.nodes \ m.range) ∪
        (m.pairs.filter fun p => G.label p.1 ≠ H.label p.2).image Prod.snd := by
    intro v hv
    obtain ⟨node, new⟩ := Finset.mem_filter.1 hv
    by_cases image : v ∈ m.range
    · obtain ⟨p, hp, rfl⟩ := Finset.mem_image.1 image
      have relabelled : p ∈ m.pairs.filter fun p => G.label p.1 ≠ H.label p.2 :=
        Finset.mem_filter.2 ⟨hp, new _ (m.inside p hp).1⟩
      exact Finset.mem_union_right _ (Finset.mem_image_of_mem _ relabelled)
    · exact Finset.mem_union_left _ (Finset.mem_sdiff.2 ⟨node, image⟩)
  calc (H.nodes.filter fun v => ∀ u ∈ G.nodes, G.label u ≠ H.label v).card
    _ ≤ _ := (Finset.card_le_card cover).trans (Finset.card_union_le _ _)
    _ ≤ (H.nodes \ m.range).card + (m.pairs.filter fun p => G.label p.1 ≠ H.label p.2).card :=
      Nat.add_le_add_left Finset.card_image_le _
    _ ≤ m.cost := by
      unfold cost
      omega

namespace Graph

variable {g A B : Graph}

/-- The distance is at least the number of labels that only the second graph has. -/
theorem ncard_labels_sdiff_le_distance (A B : Graph) :
    (B.labels \ A.labels).ncard ≤ A.shape.distance B.shape := by
  obtain ⟨m, hm⟩ := Shape.exists_cost_eq_distance A.shape B.shape
  let new := B.shape.nodes.filter fun v => ∀ u ∈ A.shape.nodes, A.shape.label u ≠ B.shape.label v
  have cover : B.labels \ A.labels ⊆ (new.image B.shape.label : Finset String) := by
    rintro l ⟨second, first⟩
    obtain ⟨⟨v, hv⟩, rfl⟩ := mem_labels.1 second
    have unknown : ∀ u ∈ A.shape.nodes, A.shape.label u ≠ B.shape.label v := fun u hu same =>
      first (mem_labels.2 ⟨⟨u, hu⟩, same⟩)
    exact Finset.mem_coe.2 (Finset.mem_image_of_mem _ (Finset.mem_filter.2 ⟨hv, unknown⟩))
  calc (B.labels \ A.labels).ncard
    _ ≤ (new.image B.shape.label).card := ncard_le_card_of_subset cover
    _ ≤ new.card := Finset.card_image_le
    _ ≤ A.shape.distance B.shape := m.card_newLabels_le_cost.trans_eq hm

/-! ## At most -/

/-- No two nodes have the same label, and no two edges the same triple. -/
structure Unambiguous (g : Graph) : Prop where
  labels : (g.nodes.map Node.label).Nodup
  triples : (g.arcs.map g.triple).Nodup

instance (g : Graph) : Decidable g.Unambiguous :=
  decidable_of_iff ((g.nodes.map Node.label).Nodup ∧ (g.arcs.map g.triple).Nodup)
    ⟨fun h => ⟨h.1, h.2⟩, fun h => ⟨h.labels, h.triples⟩⟩

theorem finite_triples (g : Graph) : g.triples.Finite :=
  (List.finite_toSet (g.arcs.map g.triple)).subset fun _ ⟨a, ha, ht⟩ => List.mem_map.2 ⟨a, ha, ht⟩

/-- Without ambiguity there are as many nodes and edges as labels and triples. -/
theorem Unambiguous.size_eq (h : g.Unambiguous) :
    g.shape.size = g.labels.ncard + g.triples.ncard := by
  have nodes := length_eq_ncard h.labels (S := g.labels) fun _ => List.mem_map
  have edges := length_eq_ncard h.triples (S := g.triples) fun _ => List.mem_map
  rw [List.length_map] at nodes edges
  simp only [Shape.size, shape, Finset.card_range, Multiset.coe_card, List.length_map, nodeCount,
    nodes, edges]

/-- Without ambiguity a label tells the node. -/
theorem Unambiguous.label_inj (h : g.Unambiguous) {u v : ℕ} (hu : u ∈ g.shape.nodes)
    (hv : v ∈ g.shape.nodes) : g.shape.label u = g.shape.label v ↔ u = v := by
  have at_position : ∀ {i} (hi : i < (g.nodes.map Node.label).length),
      g.shape.label i = (g.nodes.map Node.label)[i] := by
    intro i hi
    rw [List.length_map] at hi
    simp [shape, labelAt, hi]
  have hu : u < (g.nodes.map Node.label).length := by simpa [shape, nodeCount] using hu
  have hv : v < (g.nodes.map Node.label).length := by simpa [shape, nodeCount] using hv
  rw [at_position hu, at_position hv, h.labels.getElem_inj_iff]

/-- Nodes go to nodes with the same label. -/
def byLabel (hA : A.Unambiguous) (hB : B.Unambiguous) : Matching A.shape B.shape where
  pairs := (A.shape.nodes ×ˢ B.shape.nodes).filter fun p => A.shape.label p.1 = B.shape.label p.2
  inside p hp := Finset.mem_product.1 (Finset.mem_filter.1 hp).1
  one_to_one p hp q hq := by
    obtain ⟨hp, label⟩ := Finset.mem_filter.1 hp
    obtain ⟨hq, label'⟩ := Finset.mem_filter.1 hq
    obtain ⟨hp₁, hp₂⟩ := Finset.mem_product.1 hp
    obtain ⟨hq₁, hq₂⟩ := Finset.mem_product.1 hq
    rw [← hA.label_inj hp₁ hq₁, ← hB.label_inj hp₂ hq₂, label, label']

section
variable (hA : A.Unambiguous) (hB : B.Unambiguous)

theorem mem_byLabel {u : A.shape.nodes} {v : B.shape.nodes}
    (label : A.shape.label u = B.shape.label v) : (↑u, ↑v) ∈ (byLabel hA hB).pairs :=
  Finset.mem_filter.2 ⟨Finset.mem_product.2 ⟨u.2, v.2⟩, label⟩

/-- Every label that is common belongs to a pair. -/
theorem ncard_common_labels_le :
    (A.labels ∩ B.labels).ncard ≤ (byLabel hA hB).pairs.card := by
  have cover : A.labels ∩ B.labels ⊆
      ((byLabel hA hB).pairs.image fun p => A.shape.label p.1 : Finset String) := by
    rintro l ⟨first, second⟩
    obtain ⟨u, rfl⟩ := mem_labels.1 first
    obtain ⟨v, same⟩ := mem_labels.1 second
    exact Finset.mem_coe.2 (Finset.mem_image.2 ⟨_, mem_byLabel hA hB same.symm, rfl⟩)
  exact (ncard_le_card_of_subset cover).trans Finset.card_image_le

/-- Every triple that is common belongs to an ordered pair of pairs, as a label that its edges have
on both sides. -/
theorem ncard_common_triples_le : (A.triples ∩ B.triples).ncard ≤
    ∑ p ∈ (byLabel hA hB).pairs, ∑ q ∈ (byLabel hA hB).pairs,
      (A.shape.between p.1 q.1 ∩ B.shape.between p.2 q.2).card := by
  let shared (x : (ℕ × ℕ) × ℕ × ℕ) : Multiset String :=
    A.shape.between x.1.1 x.2.1 ∩ B.shape.between x.1.2 x.2.2
  let triples (x : (ℕ × ℕ) × ℕ × ℕ) : Finset EdgeTriple :=
    (shared x).toFinset.image fun l => ⟨A.shape.label x.1.1, A.shape.label x.2.1, l⟩
  have cover : A.triples ∩ B.triples ⊆
      (((byLabel hA hB).pairs ×ˢ (byLabel hA hB).pairs).biUnion triples : Finset EdgeTriple) := by
    rintro t ⟨first, second⟩
    obtain ⟨u, w, hl, hs, ht⟩ := mem_triples.1 first
    obtain ⟨v, x, hl', hs', ht'⟩ := mem_triples.1 second
    have source := mem_byLabel hA hB (hs.trans hs'.symm)
    have target := mem_byLabel hA hB (ht.trans ht'.symm)
    have label : t.label ∈ shared ((u, v), (w, x)) := Multiset.mem_inter.2 ⟨hl, hl'⟩
    refine Finset.mem_coe.2 (Finset.mem_biUnion.2 ⟨_, Finset.mk_mem_product source target, ?_⟩)
    refine Finset.mem_image.2 ⟨t.label, Multiset.mem_toFinset.2 label, ?_⟩
    simp only [hs, ht]
  have few : ∀ x, (triples x).card ≤ (shared x).card := fun x =>
    Finset.card_image_le.trans (Multiset.toFinset_card_le _)
  calc (A.triples ∩ B.triples).ncard
    _ ≤ _ := ncard_le_card_of_subset cover
    _ ≤ ∑ x ∈ (byLabel hA hB).pairs ×ˢ (byLabel hA hB).pairs, (triples x).card :=
      Finset.card_biUnion_le
    _ ≤ ∑ x ∈ (byLabel hA hB).pairs ×ˢ (byLabel hA hB).pairs, (shared x).card :=
      Finset.sum_le_sum fun x _ => few x
    _ = _ := Finset.sum_product _ _ _

/-- Going by labels saves two for every label and every triple that is common. -/
theorem two_mul_common_le_saving :
    2 * ((A.labels ∩ B.labels).ncard + (A.triples ∩ B.triples).ncard) ≤
      Matching.savingOf A.shape B.shape (byLabel hA hB).pairs := by
  have nodes : ∑ p ∈ (byLabel hA hB).pairs, Matching.nodeSaving A.shape B.shape p =
      2 * (byLabel hA hB).pairs.card := by
    rw [mul_comm, ← smul_eq_mul, ← Finset.sum_const]
    exact Finset.sum_congr rfl fun p hp => if_pos (Finset.mem_filter.1 hp).2
  have edge : ∀ p q, 2 * (A.shape.between p.1 q.1 ∩ B.shape.between p.2 q.2).card ≤
      Matching.edgeSaving A.shape B.shape p q := by
    intro p q
    have := card_inter_le_min (A.shape.between p.1 q.1) (B.shape.between p.2 q.2)
    unfold Matching.edgeSaving saving
    omega
  have edges := Finset.sum_le_sum fun p (_ : p ∈ (byLabel hA hB).pairs) =>
    Finset.sum_le_sum fun q (_ : q ∈ (byLabel hA hB).pairs) => edge p q
  simp only [← Finset.mul_sum] at edges
  have labels := ncard_common_labels_le hA hB
  have triples := ncard_common_triples_le hA hB
  unfold Matching.savingOf
  omega

end

/-- The distance is at most the number of labels and triples that only one of the graphs has. -/
theorem distance_le_changes (hA : A.Unambiguous) (hB : B.Unambiguous) :
    A.shape.distance B.shape ≤ (B.labels \ A.labels).ncard + (A.labels \ B.labels).ncard +
      (B.triples \ A.triples).ncard + (A.triples \ B.triples).ncard := by
  have cost := (byLabel hA hB).cost_add_saving
  have saving := two_mul_common_le_saving hA hB
  have least := Shape.distance_le (byLabel hA hB)
  have labels := Set.ncard_inter_add_ncard_sdiff_eq_ncard A.labels B.labels A.finite_labels
  have labels' := Set.ncard_inter_add_ncard_sdiff_eq_ncard B.labels A.labels B.finite_labels
  have triples := Set.ncard_inter_add_ncard_sdiff_eq_ncard A.triples B.triples A.finite_triples
  have triples' := Set.ncard_inter_add_ncard_sdiff_eq_ncard B.triples A.triples B.finite_triples
  rw [Set.inter_comm] at labels' triples'
  rw [hA.size_eq, hB.size_eq] at cost
  omega

end Graph

namespace Difference

/-- How many labels and triples were added or removed. -/
def changeCount (d : Difference) : ℕ :=
  d.addedNodes.toList.length + d.removedNodes.toList.length + d.addedEdges.toList.length +
    d.removedEdges.toList.length

section
variable (A B : Graph) (includeCommon : Bool)

theorem length_addedEdges : (ofGraphs A B includeCommon).addedEdges.toList.length =
    (B.triples \ A.triples).ncard :=
  length_eq_ncard (SortedSet.increasing _).nodup (mem_addedEdges A B includeCommon)

theorem length_removedEdges : (ofGraphs A B includeCommon).removedEdges.toList.length =
    (A.triples \ B.triples).ncard :=
  length_eq_ncard (SortedSet.increasing _).nodup (mem_removedEdges A B includeCommon)

/-- The distance is at least the number of labels that were added, and that of those removed. -/
theorem max_nodes_le_distance :
    max (ofGraphs A B includeCommon).addedNodes.toList.length
      (ofGraphs A B includeCommon).removedNodes.toList.length ≤ A.shape.distance B.shape := by
  rw [length_addedNodes, length_removedNodes]
  refine max_le (Graph.ncard_labels_sdiff_le_distance A B) ?_
  rw [Shape.distance_comm]
  exact Graph.ncard_labels_sdiff_le_distance B A

variable {A B includeCommon}

/-- Where something was changed there is a distance. -/
theorem one_le_distance_of_hasChanges (hA : A.nodes ≠ [])
    (h : (ofGraphs A B includeCommon).hasChanges) : 1 ≤ A.shape.distance B.shape := by
  rw [Nat.one_le_iff_ne_zero]
  intro zero
  rcases Graph.sameLabels_of_distance_eq_zero zero with ⟨none, -⟩ | ⟨-, -, labels, triples⟩
  · exact hA none
  · rw [(hasChanges_ofGraphs_iff A B includeCommon).2 ⟨labels, triples⟩] at h
    cases h

/-- Without ambiguity the distance is at most the number of changes. -/
theorem distance_le_changeCount (hA : A.Unambiguous) (hB : B.Unambiguous) :
    A.shape.distance B.shape ≤ (ofGraphs A B includeCommon).changeCount := by
  rw [changeCount, length_addedNodes, length_removedNodes, length_addedEdges, length_removedEdges]
  exact Graph.distance_le_changes hA hB

end

end Difference

theorem distanceOrMinusOne_eq_neg_one_iff {d : Option ℕ} :
    distanceOrMinusOne d = -1 ↔ d = none := by
  cases d with
  | none => exact ⟨fun _ => rfl, fun _ => rfl⟩
  | some d => simp [distanceOrMinusOne]

/-- No distance is reported under a bound that the distance exceeds. -/
theorem Edit.editDistance?_eq_none_of_lt {A B : Graph} {bound : UInt64}
    (h : bound.toNat < A.shape.distance B.shape) : A.editDistance? B bound = none := by
  rw [editDistance?_eq_of_limit, if_neg]
  exact fun below => (Nat.lt_succ_iff.1 (lt_min_iff.1 below).1).not_gt h

namespace Difference

/-- **Difference and distance bound each other.** The distance of two graphs with nodes is at least
the number of labels that were added and the number of those removed, and it is not zero if anything
was changed. If in each of the two no label and no triple comes twice, it is at most the number of
labels and triples that were added or removed. So no distance is reported under a bound below the
least that it can be, and for graphs whose nodes and edges can be numbered in 32 bits one is
reported under every bound from the most that it can be on. -/
theorem between_bounds_distance {A B : Graph} (hA : A.nodes ≠ []) (hB : B.nodes ≠ []) :
    (max (between (some A) (some B) false).addedNodes.toList.length
        (between (some A) (some B) false).removedNodes.toList.length ≤ A.shape.distance B.shape ∧
      ((between (some A) (some B) false).hasChanges → 1 ≤ A.shape.distance B.shape) ∧
      (A.Unambiguous → B.Unambiguous →
        A.shape.distance B.shape ≤ (between (some A) (some B) false).changeCount)) ∧
    (∀ bound : UInt64,
      (bound.toNat < max (between (some A) (some B) false).addedNodes.toList.length
          (between (some A) (some B) false).removedNodes.toList.length ∨
        (bound.toNat < 1 ∧ (between (some A) (some B) false).hasChanges)) →
      distanceOrMinusOne (A.editDistance? B bound) = -1) ∧
    (A.Unambiguous → B.Unambiguous → A.Indexable → B.Indexable → ∀ bound : UInt64,
      (between (some A) (some B) false).changeCount ≤ bound.toNat →
        distanceOrMinusOne (A.editDistance? B bound) ≠ -1) := by
  rw [between_of_nodes hA hB]
  have least := max_nodes_le_distance A B false
  refine ⟨⟨least, one_le_distance_of_hasChanges hA, distance_le_changeCount⟩, ?_, ?_⟩
  · intro bound below
    have exceeded : bound.toNat < A.shape.distance B.shape := by
      rcases below with below | ⟨below, changes⟩
      · exact below.trans_le least
      · exact below.trans_le (one_le_distance_of_hasChanges hA changes)
    exact distanceOrMinusOne_eq_neg_one_iff.2 (Edit.editDistance?_eq_none_of_lt exceeded)
  · intro labelsA labelsB fewA fewB bound reached
    have within := (distance_le_changeCount labelsA labelsB).trans reached
    rw [ne_eq, distanceOrMinusOne_eq_neg_one_iff, Edit.editDistance?_eq fewA fewB, if_pos within]
    exact Option.some_ne_none _

/-- A function with a helper that calls itself. -/
def helped : Graph where
  nodes := [⟨"1", .ofLabel "main"⟩, ⟨"2", .ofLabel "helper"⟩, ⟨"3", .ofLabel "log"⟩]
  arcs := [⟨0, 1, .ofLabel "call"⟩, ⟨1, 1, .ofLabel "call"⟩, ⟨1, 2, .ofLabel "call"⟩,
    ⟨0, 2, .ofLabel "call"⟩]
  nodup_ids := by decide
  arcs_inside := by decide

/-- The function without its helper, which hands something on when it logs. -/
def unhelped : Graph where
  nodes := [⟨"a", .ofLabel "log"⟩, ⟨"b", .ofLabel "main"⟩]
  arcs := [⟨1, 0, .ofLabel "call"⟩, ⟨1, 0, .ofLabel "flow"⟩]
  nodup_ids := by decide
  arcs_inside := by decide

/-- One node and three edges were removed and one edge was added, so the distance is between one and
five. -/
theorem bounds_helped :
    ((helped.nodes ≠ [] ∧ unhelped.nodes ≠ []) ∧
      (helped.Unambiguous ∧ unhelped.Unambiguous) ∧ helped.Indexable ∧ unhelped.Indexable) ∧
    (1 ≤ helped.shape.distance unhelped.shape ∧ helped.shape.distance unhelped.shape ≤ 5) ∧
      distanceOrMinusOne (helped.editDistance? unhelped 0) = -1 ∧
      distanceOrMinusOne (helped.editDistance? unhelped 5) ≠ -1 := by
  have nodes : helped.nodes ≠ [] ∧ unhelped.nodes ≠ [] := by decide
  have distinct : helped.Unambiguous ∧ unhelped.Unambiguous := by decide
  have few : helped.Indexable ∧ unhelped.Indexable := by decide
  obtain ⟨⟨least, -, most⟩, below, reached⟩ := between_bounds_distance nodes.1 nodes.2
  have removed : max (between (some helped) (some unhelped) false).addedNodes.toList.length
      (between (some helped) (some unhelped) false).removedNodes.toList.length = 1 := by decide
  have changes : (between (some helped) (some unhelped) false).changeCount = 5 := by decide
  rw [removed] at least below
  rw [changes] at most reached
  exact ⟨⟨nodes, distinct, few⟩, ⟨least, most distinct.1 distinct.2⟩, below 0 (.inl (by decide)),
    reached distinct.1 distinct.2 few.1 few.2 5 (by decide)⟩

end Difference

end GraphCompare
