import Mathlib
import GraphCompare.Proofs.Hash.Recovery

/-!
# The hash without rounds

Without rounds a hash looks at the fingerprints of the labels at the start, and at nothing else
(`Graph.hashedText_eq_iff_of_no_rounds`). These are the labels of the nodes up to layout, or empty
labels, or the degrees. So two graphs of any shape have one hash if their nodes have the same
labels, if there are as many nodes, or if the nodes have the same degrees, whichever of these is
looked at (`Graph.hash_eq_of_no_rounds`). Degrees do not see which way an edge points: they count
the ends of edges (`Graph.endCount`).
-/

namespace GraphCompare.Graph

section
variable (g : Graph)

/-- The number of ends that edges have at a node, two for an edge from the node to itself. -/
def endCount (i : Fin g.nodes.length) : ℕ := ∑ k, (g.ends k).toMultiset.count i

/-- How many ends of edges there are at each node. -/
def endCounts : Multiset ℕ := Finset.univ.val.map g.endCount

/-- The degree of a node is the number of ends that edges have at it. -/
theorem degree_eq_endCount (i : Fin g.nodes.length) : g.degree (g.node i).id = g.endCount i := by
  have ends : ∀ k, (g.ends k).toMultiset.count i = (g.arc k).endsAt i := by
    intro k
    have pair : (g.ends k).toMultiset = ([g.source k, g.target k] : List _) := rfl
    have hs : (g.arc k).source = g.source k := rfl
    have ht : (g.arc k).target = g.target k := rfl
    rw [pair, Multiset.coe_count, Arc.endsAt, hs, ht]
    simp only [← Fin.ext_iff, List.count_cons, List.count_nil, beq_iff_eq]
    omega
  rw [degree_eq_sum, endCount, Finset.sum_congr rfl fun k _ => ends k]
  exact (Fin.sum_univ_fun_getElem g.arcs fun a => a.endsAt i).symm

/-- The degrees of the nodes, in their order. -/
theorem coe_degrees : ((g.nodes.map fun n => g.degree n.id : List ℕ) : Multiset ℕ) =
    g.endCounts := by
  have list : (g.nodes.map fun n => g.degree n.id) =
      (List.finRange g.nodes.length).map g.endCount := by
    refine List.ext_getElem (by simp) fun i hi _ => ?_
    have degree := g.degree_eq_endCount ⟨i, by simpa using hi⟩
    simpa [node] using degree
  rw [list, endCounts]
  rfl

end

/-- **What a hash without rounds looks at.** The hashed texts of two graphs are equal exactly if the
labels at the start have the same fingerprints, in some order. -/
theorem hashedText_eq_iff_of_no_rounds {g h : Graph} {o p : HashOptions} (ho : o.iterations = 0)
    (hp : p.iterations = 0) : g.hashedText o = h.hashedText p ↔
      ((g.startLabels o).map (fingerprint o.digestSize)).Perm
        ((h.startLabels p).map (fingerprint p.digestSize)) := by
  have text : ∀ {g : Graph} {o : HashOptions}, o.iterations = 0 → g.hashedText o =
      withoutLayout (listing (countsOf [(g.startLabels o).map (fingerprint o.digestSize)])) := by
    intro g o none
    have columns : g.hashedColumns o = [(g.startLabels o).map (fingerprint o.digestSize)] := by
      rw [hashedColumns, none]
      rfl
    rw [hashedText, columns, countsOf, List.flatMap_congr fun c _ => Histogram.entries_ofLabels c]
  have hex : ∀ {g : Graph} {o : HashOptions},
      ∀ e ∈ countsOf [(g.startLabels o).map (fingerprint o.digestSize)], IsHexText e.1 := by
    intro g o e he
    obtain ⟨c, hc, he⟩ := List.mem_flatMap.1 he
    rw [List.mem_singleton.1 hc] at he
    obtain ⟨s, -, heq⟩ := List.mem_map.1 (Histogram.mem_labelCounts.1 he).1
    exact heq ▸ (isFingerprint_fingerprint _ _).hex
  rw [text ho, text hp]
  constructor
  · intro same
    have counts := eq_of_withoutLayout_listing hex hex same
    simp only [countsOf, List.flatMap_singleton] at counts
    exact Histogram.perm_of_labelCounts counts
  · intro perm
    rw [countsOf_eq_of_perm (.cons perm .nil)]

/-- Without rounds, labels at the start that are the same but for layout and order give one hash. -/
theorem hash_eq_of_startLabels_perm {g h : Graph} {o p : HashOptions} (ho : o.iterations = 0)
    (hp : p.iterations = 0) (size : o.digestSize = p.digestSize)
    (perm : ((g.startLabels o).map withoutLayout).Perm ((h.startLabels p).map withoutLayout)) :
    g.hash o = h.hash p := by
  have fingerprints := perm.map (fingerprint p.digestSize)
  simp only [List.map_map, Function.comp_def, fingerprint_withoutLayout] at fingerprints
  have text : g.hashedText o = h.hashedText p :=
    (hashedText_eq_iff_of_no_rounds ho hp).2 (size ▸ fingerprints)
  rw [hash_eq_fingerprint, hash_eq_fingerprint, size, text]

/-- **A hash without rounds looks at the labels at the start and at nothing else.** Where nodes have
labels, graphs have one hash if their nodes have the same labels but for layout, in some order,
whatever is said of edges; where only edges have labels, if they have as many nodes; and where
neither have, if their nodes have the same degrees, in some order. -/
theorem hash_eq_of_no_rounds (size : ℕ) (g h : Graph) :
    (∀ f e e', (g.nodes.map fun n => withoutLayout (f n.attributes)).Perm
        (h.nodes.map fun n => withoutLayout (f n.attributes)) →
      g.hash ⟨0, size, some f, e⟩ = h.hash ⟨0, size, some f, e'⟩) ∧
    (∀ e e', g.nodeCount = h.nodeCount →
      g.hash ⟨0, size, none, some e⟩ = h.hash ⟨0, size, none, some e'⟩) ∧
    (g.endCounts = h.endCounts → g.hash ⟨0, size, none, none⟩ = h.hash ⟨0, size, none, none⟩) := by
  refine ⟨fun f e e' labels => ?_, fun e e' count => ?_, fun degrees => ?_⟩
  · refine hash_eq_of_startLabels_perm rfl rfl rfl ?_
    simp only [startLabels, List.map_map]
    exact labels
  · refine hash_eq_of_startLabels_perm rfl rfl rfl ?_
    have empty : ∀ g : Graph, (g.nodes.map fun _ => "") = List.replicate g.nodeCount "" :=
      fun _ => List.map_const'
    simp only [startLabels, empty, count]
    exact .refl _
  · refine hash_eq_of_startLabels_perm rfl rfl rfl ?_
    rw [← coe_degrees, ← coe_degrees, Multiset.coe_eq_coe] at degrees
    have texts := degrees.map fun d : ℕ => withoutLayout (Decimal.integerText d)
    simp only [startLabels, List.map_map] at texts ⊢
    exact texts

/-- Three functions that call each other in a ring. -/
def ring : Graph where
  nodes := [⟨"1", .ofLabel "open"⟩, ⟨"2", .ofLabel "read all"⟩, ⟨"3", .ofLabel "close"⟩]
  arcs := [⟨0, 1, .ofLabel "call"⟩, ⟨1, 2, .ofLabel "call"⟩, ⟨2, 0, .ofLabel "call"⟩]
  nodup_ids := by decide
  arcs_inside := by decide

/-- The same functions in another order and another layout, each calling itself. -/
def loops : Graph where
  nodes := [⟨"c", .ofLabel "close"⟩, ⟨"o", .ofLabel "open\n"⟩, ⟨"r", .ofLabel "read\tall"⟩]
  arcs := [⟨0, 0, .ofLabel "rec"⟩, ⟨1, 1, .ofLabel "rec"⟩, ⟨2, 2, .ofLabel "rec"⟩]
  nodup_ids := by decide
  arcs_inside := by decide

/-- Without rounds the calls make no difference, whichever labels are looked at. -/
theorem hash_ring_loops :
    ((ring.nodes.map fun n => withoutLayout n.attributes.label).Perm
        (loops.nodes.map fun n => withoutLayout n.attributes.label) ∧
      ring.nodeCount = loops.nodeCount ∧ ring.endCounts = loops.endCounts) ∧
    ring.hash ⟨0, 16, some Attributes.label, none⟩ =
      loops.hash ⟨0, 16, some Attributes.label, some Attributes.label⟩ ∧
    ring.hash ⟨0, 16, none, some Attributes.label⟩ =
      loops.hash ⟨0, 16, none, some Attributes.label⟩ ∧
    ring.hash ⟨0, 16, none, none⟩ = loops.hash ⟨0, 16, none, none⟩ := by
  have labels : (ring.nodes.map fun n => withoutLayout n.attributes.label).Perm
      (loops.nodes.map fun n => withoutLayout n.attributes.label) := by decide
  have degrees : ring.endCounts = loops.endCounts := by decide
  obtain ⟨byNode, byEdge, byDegree⟩ := hash_eq_of_no_rounds 16 ring loops
  exact ⟨⟨labels, rfl, degrees⟩, byNode _ _ _ labels, byEdge _ _ rfl, byDegree degrees⟩

end GraphCompare.Graph
