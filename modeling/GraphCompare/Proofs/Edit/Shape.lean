import Mathlib
import GraphCompare.Difference
import GraphCompare.Proofs.Edit.Changes

/-!
# Shapes, and the cost of mapping one onto another

A `Shape` is what the edit distance is about: a finite set of nodes, here named by numbers, with
their labels, and a multiset of labelled edges between them. `Graph.shape` is the shape of a graph,
its nodes named by their positions.

A partial injection of the nodes of one shape into those of another is kept as the set of its pairs
(`Matching`), so that neither side is preferred. `Matching.cost` charges it globally, without an
order of the nodes, and `Shape.distance` is the least cost of all of them.

The cost is inconvenient to compare between matchings of different shapes, since what is left over
shows in it. `Matching.cost_add_saving` trades it for a sum over the matched pairs only: the cost
and the saving of a matching add up to the sizes of the two shapes.
-/

namespace GraphCompare

/-- An edge with its ends and its label. -/
abbrev Link := ℕ × ℕ × String

/-- The labels of the edges from one node to another. -/
def labelsBetween (edges : Multiset Link) (u w : ℕ) : Multiset String :=
  (edges.filter fun e => e.1 = u ∧ e.2.1 = w).map fun e => e.2.2

/-- A finite directed multigraph with labelled nodes and edges. -/
structure Shape where
  nodes : Finset ℕ
  label : ℕ → String
  edges : Multiset Link
  inside : ∀ e ∈ edges, e.1 ∈ nodes ∧ e.2.1 ∈ nodes

/-- What the edit distance sees of a graph. -/
def Graph.shape (g : Graph) : Shape where
  nodes := Finset.range g.nodeCount
  label := g.labelAt
  edges := g.arcs.map fun a => (a.source, a.target, a.label)
  inside := by
    intro e he
    obtain ⟨a, ha, rfl⟩ := List.mem_map.1 (Multiset.mem_coe.1 he)
    exact ⟨Finset.mem_range.2 (g.arcs_inside a ha).1, Finset.mem_range.2 (g.arcs_inside a ha).2⟩

namespace Shape

/-- The labels of the edges from one node to another. -/
def between (G : Shape) (u w : ℕ) : Multiset String := labelsBetween G.edges u w

/-- The edges with both ends in a set of nodes. -/
def edgesWithin (G : Shape) (S : Finset ℕ) : Multiset Link :=
  G.edges.filter fun e => e.1 ∈ S ∧ e.2.1 ∈ S

/-- The edges with an end outside a set of nodes. -/
def edgesBeyond (G : Shape) (S : Finset ℕ) : Multiset Link :=
  G.edges.filter fun e => ¬(e.1 ∈ S ∧ e.2.1 ∈ S)

/-- The number of nodes and edges. -/
def size (G : Shape) : ℕ := G.nodes.card + G.edges.card

/-- Two shapes are isomorphic if a bijection of their nodes keeps the labels of the nodes and, for
every ordered pair of nodes, the multiset of the labels of the edges. -/
def Isomorphic (G H : Shape) : Prop :=
  ∃ e : G.nodes ≃ H.nodes, (∀ u, H.label (e u) = G.label u) ∧
    ∀ u w, H.between (e u) (e w) = G.between u w

theorem Isomorphic.symm {G H : Shape} (h : G.Isomorphic H) : H.Isomorphic G := by
  obtain ⟨e, hlabel, hbetween⟩ := h
  refine ⟨e.symm, fun v => ?_, fun v x => ?_⟩
  · rw [← hlabel, e.apply_symm_apply]
  · rw [← hbetween, e.apply_symm_apply, e.apply_symm_apply]

end Shape

/-- A partial injection of the nodes of one shape into the nodes of another, as the set of the pairs
of a node and its image. -/
structure Matching (G H : Shape) where
  pairs : Finset (ℕ × ℕ)
  inside : ∀ p ∈ pairs, p.1 ∈ G.nodes ∧ p.2 ∈ H.nodes
  one_to_one : ∀ p ∈ pairs, ∀ q ∈ pairs, p.1 = q.1 ↔ p.2 = q.2

namespace Matching

variable {G H : Shape}

/-- The nodes that have an image. -/
def domain (m : Matching G H) : Finset ℕ := m.pairs.image Prod.fst

/-- The nodes that are an image. -/
def range (m : Matching G H) : Finset ℕ := m.pairs.image Prod.snd

/-- The cost of a partial injection: its mapped nodes that change their label, the nodes without an
image and those that are no image, the changes between the edge labels of every ordered pair of
mapped nodes and those of their images, and the edges of either shape that touch a node left
over. -/
def cost (m : Matching G H) : ℕ :=
  (m.pairs.filter fun p => G.label p.1 ≠ H.label p.2).card +
    (G.nodes \ m.domain).card + (H.nodes \ m.range).card +
    (∑ p ∈ m.pairs, ∑ q ∈ m.pairs, changes (G.between p.1 q.1) (H.between p.2 q.2)) +
    (G.edgesBeyond m.domain).card + (H.edgesBeyond m.range).card

/-- The part of the cost that the nodes have: the pairs of different labels, and the nodes left over
on either side. -/
def labelCost (m : Matching G H) : ℕ :=
  (m.pairs.filter fun p => G.label p.1 ≠ H.label p.2).card +
    (G.nodes \ m.domain).card + (H.nodes \ m.range).card

/-- The matching that leaves everything over. -/
def empty (G H : Shape) : Matching G H := ⟨∅, by simp, by simp⟩

/-- The matching with one more pair, of nodes that are in no pair yet. The shapes may have been
changed meanwhile, as long as they have the nodes of the pairs. -/
def insertPair {G' H' : Shape} (m : Matching G H) {u v : ℕ} (hu : u ∈ G'.nodes) (hv : v ∈ H'.nodes)
    (hG : ∀ p ∈ m.pairs, p.1 ∈ G'.nodes ∧ p.1 ≠ u)
    (hH : ∀ p ∈ m.pairs, p.2 ∈ H'.nodes ∧ p.2 ≠ v) : Matching G' H' where
  pairs := insert (u, v) m.pairs
  inside p hp := by
    rcases Finset.mem_insert.1 hp with rfl | hp
    · exact ⟨hu, hv⟩
    · exact ⟨(hG p hp).1, (hH p hp).1⟩
  one_to_one p hp q hq := by
    rcases Finset.mem_insert.1 hp with rfl | hp <;> rcases Finset.mem_insert.1 hq with rfl | hq
    · simp
    · simp [(hG q hq).2.symm, (hH q hq).2.symm]
    · simp [(hG p hp).2, (hH p hp).2]
    · exact m.one_to_one p hp q hq

theorem pairs_insertPair {G' H' : Shape} (m : Matching G H) {u v : ℕ} (hu : u ∈ G'.nodes)
    (hv : v ∈ H'.nodes) (hG : ∀ p ∈ m.pairs, p.1 ∈ G'.nodes ∧ p.1 ≠ u)
    (hH : ∀ p ∈ m.pairs, p.2 ∈ H'.nodes ∧ p.2 ≠ v) :
    (m.insertPair hu hv hG hH).pairs = insert (u, v) m.pairs :=
  rfl

end Matching

/-- The least cost of a partial injection. -/
noncomputable def Shape.distance (G H : Shape) : ℕ :=
  sInf (Set.range (Matching.cost : Matching G H → ℕ))

/-! ## The edges between nodes -/

@[simp] theorem labelsBetween_zero (u w : ℕ) : labelsBetween 0 u w = 0 := rfl

/-- One more edge adds its label to the pair of its ends. -/
theorem labelsBetween_cons (e : Link) (edges : Multiset Link) (u w : ℕ) :
    labelsBetween (e ::ₘ edges) u w =
      (if e.1 = u ∧ e.2.1 = w then {e.2.2} else 0) + labelsBetween edges u w := by
  unfold labelsBetween
  by_cases h : e.1 = u ∧ e.2.1 = w
  · rw [Multiset.filter_cons_of_pos (p := fun e : Link => e.1 = u ∧ e.2.1 = w) _ h,
      Multiset.map_cons, if_pos h, Multiset.singleton_add]
  · rw [Multiset.filter_cons_of_neg (p := fun e : Link => e.1 = u ∧ e.2.1 = w) _ h, if_neg h,
      zero_add]

/-- The edges between the nodes of a set are those with both ends in it. -/
theorem sum_labelsBetween (S : Finset ℕ) (edges : Multiset Link) :
    ∑ u ∈ S, ∑ w ∈ S, labelsBetween edges u w =
      (edges.filter fun e => e.1 ∈ S ∧ e.2.1 ∈ S).map fun e => e.2.2 := by
  induction edges using Multiset.induction with
  | empty => simp
  | cons e edges ih =>
    have hone : ∑ u ∈ S, ∑ w ∈ S,
        (if e.1 = u ∧ e.2.1 = w then ({e.2.2} : Multiset String) else 0) =
          if e.1 ∈ S ∧ e.2.1 ∈ S then {e.2.2} else 0 := by
      simp only [ite_and, Finset.sum_ite_irrel, Finset.sum_ite_eq, Finset.sum_const_zero]
    simp only [labelsBetween_cons, Finset.sum_add_distrib, ih, hone, Multiset.filter_cons]
    by_cases h : e.1 ∈ S ∧ e.2.1 ∈ S
    · simp [h]
    · simp [h]

namespace Shape

/-- The labels of the edges between the nodes of a set, pair by pair. -/
theorem sum_between (G : Shape) (S : Finset ℕ) :
    ∑ u ∈ S, ∑ w ∈ S, G.between u w = (G.edgesWithin S).map fun e => e.2.2 :=
  sum_labelsBetween S G.edges

/-- The edges with both ends in a set, counted pair by pair. -/
theorem card_edgesWithin (G : Shape) (S : Finset ℕ) :
    ∑ u ∈ S, ∑ w ∈ S, (G.between u w).card = (G.edgesWithin S).card := by
  rw [← Multiset.card_map fun e : Link => e.2.2, ← sum_between]
  simp only [Multiset.card_sum]

theorem edgesWithin_add_edgesBeyond (G : Shape) (S : Finset ℕ) :
    G.edgesWithin S + G.edgesBeyond S = G.edges :=
  Multiset.filter_add_not (fun e : Link => e.1 ∈ S ∧ e.2.1 ∈ S) G.edges

/-- Every edge of a shape lies within its nodes. -/
theorem edgesWithin_nodes (G : Shape) : G.edgesWithin G.nodes = G.edges :=
  Multiset.filter_eq_self.2 G.inside

end Shape

namespace Matching

variable {G H : Shape}

/-! ## Savings -/

/-- What a mapped node saves against deleting it and inserting its image. -/
def nodeSaving (G H : Shape) (p : ℕ × ℕ) : ℕ := if G.label p.1 = H.label p.2 then 2 else 1

theorem nodeSaving_eq (G H : Shape) (p : ℕ × ℕ) :
    nodeSaving G H p = GraphCompare.saving {G.label p.1} {H.label p.2} := by
  have h := changes_add_saving {G.label p.1} {H.label p.2}
  rw [changes_singleton] at h
  simp only [Multiset.card_singleton] at h
  unfold nodeSaving
  split at h <;> rename_i hl
  · rw [if_pos hl]
    omega
  · rw [if_neg hl]
    omega

/-- What the edges of two mapped nodes save, in the direction of the pair. -/
def edgeSaving (G H : Shape) (p q : ℕ × ℕ) : ℕ :=
  GraphCompare.saving (G.between p.1 q.1) (H.between p.2 q.2)

/-- What a set of pairs saves. -/
def savingOf (G H : Shape) (pairs : Finset (ℕ × ℕ)) : ℕ :=
  ∑ p ∈ pairs, nodeSaving G H p + ∑ p ∈ pairs, ∑ q ∈ pairs, edgeSaving G H p q

theorem injOn_fst (m : Matching G H) : Set.InjOn Prod.fst (m.pairs : Set (ℕ × ℕ)) :=
  fun p hp q hq h => Prod.ext h ((m.one_to_one p hp q hq).1 h)

theorem injOn_snd (m : Matching G H) : Set.InjOn Prod.snd (m.pairs : Set (ℕ × ℕ)) :=
  fun p hp q hq h => Prod.ext ((m.one_to_one p hp q hq).2 h) h

theorem domain_subset (m : Matching G H) : m.domain ⊆ G.nodes := by
  intro u hu
  obtain ⟨p, hp, rfl⟩ := Finset.mem_image.1 hu
  exact (m.inside p hp).1

theorem range_subset (m : Matching G H) : m.range ⊆ H.nodes := by
  intro v hv
  obtain ⟨p, hp, rfl⟩ := Finset.mem_image.1 hv
  exact (m.inside p hp).2

theorem card_domain (m : Matching G H) : m.domain.card = m.pairs.card :=
  Finset.card_image_of_injOn m.injOn_fst

theorem card_range (m : Matching G H) : m.range.card = m.pairs.card :=
  Finset.card_image_of_injOn m.injOn_snd

/-- The edges within the domain, counted over the mapped pairs. -/
theorem card_edgesWithin_domain (m : Matching G H) :
    ∑ p ∈ m.pairs, ∑ q ∈ m.pairs, (G.between p.1 q.1).card = (G.edgesWithin m.domain).card := by
  rw [← Shape.card_edgesWithin, domain, Finset.sum_image m.injOn_fst]
  exact Finset.sum_congr rfl fun p _ => by rw [Finset.sum_image m.injOn_fst]

/-- The edges within the range, counted over the mapped pairs. -/
theorem card_edgesWithin_range (m : Matching G H) :
    ∑ p ∈ m.pairs, ∑ q ∈ m.pairs, (H.between p.2 q.2).card = (H.edgesWithin m.range).card := by
  rw [← Shape.card_edgesWithin, range, Finset.sum_image m.injOn_snd]
  exact Finset.sum_congr rfl fun p _ => by rw [Finset.sum_image m.injOn_snd]

/-- Every mapped node either changes its label or saves the change. -/
theorem card_relabelled_add_nodeSaving (m : Matching G H) :
    (m.pairs.filter fun p => G.label p.1 ≠ H.label p.2).card + ∑ p ∈ m.pairs, nodeSaving G H p =
      2 * m.pairs.card := by
  rw [Finset.card_filter, ← Finset.sum_add_distrib, mul_comm, ← smul_eq_mul, ← Finset.sum_const]
  refine Finset.sum_congr rfl fun p _ => ?_
  unfold nodeSaving
  split <;> simp_all

/-- Changes and savings of the edges of the mapped pairs add up to these edges. -/
theorem sum_changes_add_edgeSaving (m : Matching G H) :
    (∑ p ∈ m.pairs, ∑ q ∈ m.pairs, changes (G.between p.1 q.1) (H.between p.2 q.2)) +
        ∑ p ∈ m.pairs, ∑ q ∈ m.pairs, edgeSaving G H p q =
      (G.edgesWithin m.domain).card + (H.edgesWithin m.range).card := by
  rw [← m.card_edgesWithin_domain, ← m.card_edgesWithin_range]
  simp only [← Finset.sum_add_distrib, edgeSaving, changes_add_saving]

/-- Cost and saving of the nodes share out the nodes of the two shapes. -/
theorem labelCost_add_saving (m : Matching G H) :
    m.labelCost + ∑ p ∈ m.pairs, nodeSaving G H p = G.nodes.card + H.nodes.card := by
  have hlabel := m.card_relabelled_add_nodeSaving
  have hdom := Finset.card_sdiff_add_card_eq_card m.domain_subset
  have hran := Finset.card_sdiff_add_card_eq_card m.range_subset
  rw [m.card_domain] at hdom
  rw [m.card_range] at hran
  unfold labelCost
  omega

/-- **Cost and saving share out the two shapes.** -/
theorem cost_add_saving (m : Matching G H) :
    m.cost + savingOf G H m.pairs = G.size + H.size := by
  have hG := congrArg Multiset.card (G.edgesWithin_add_edgesBeyond m.domain)
  have hH := congrArg Multiset.card (H.edgesWithin_add_edgesBeyond m.range)
  have hlabel := m.labelCost_add_saving
  have hedges := m.sum_changes_add_edgeSaving
  rw [Multiset.card_add] at hG hH
  unfold labelCost at hlabel
  unfold cost savingOf Shape.size
  omega

end Matching

/-! ## The least cost -/

namespace Shape

variable {G H : Shape}

theorem distance_le (m : Matching G H) : G.distance H ≤ m.cost := Nat.sInf_le ⟨m, rfl⟩

/-- The least cost is the cost of a matching. -/
theorem exists_cost_eq_distance (G H : Shape) : ∃ m : Matching G H, m.cost = G.distance H :=
  Nat.sInf_mem (s := Set.range (Matching.cost : Matching G H → ℕ)) ⟨_, Matching.empty G H, rfl⟩

/-- The least cost does not exceed dropping the one shape and adding the other. -/
theorem distance_le_size (G H : Shape) : G.distance H ≤ G.size + H.size := by
  obtain ⟨m, hm⟩ := exists_cost_eq_distance G H
  have := m.cost_add_saving
  omega

end Shape

end GraphCompare
