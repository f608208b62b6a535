import Mathlib
import GraphCompare.Hash.Rounds
import GraphCompare.Proofs.Graph.Incidence

/-!
# Graphs that are alike for a hash

Two graphs are alike for the options of a hash if their nodes and their edges correspond one to
one: corresponding edges join corresponding nodes, and corresponding nodes and edges have the labels
that the options take (`Graph.Correspondence`). Ids, the order in which nodes and edges were added
and the way an edge points play no part, so the two ends of an edge are an unordered pair
(`Graph.ends`).

What a node hears in a round over an arc (`Arc.heard`) and the number of ends that an arc has at it
(`Arc.endsAt`) are the same for corresponding nodes and arcs. Whatever is computed from the
collection of all arcs is the same too, since corresponding arcs are all arcs in another order
(`Graph.Correspondence.arcs_perm`).
-/

namespace GraphCompare

/-- Lists that agree along a bijection of their positions are rearrangements of each other. -/
theorem perm_of_equiv {α : Type} {l l' : List α} {m n : ℕ} (e : Fin m ≃ Fin n) (hl : l.length = m)
    (hl' : l'.length = n) (h : ∀ i : Fin m, l'[(e i : ℕ)]? = l[(i : ℕ)]?) :
    l.Perm l' := by
  subst hl hl'
  have hmap : l = ((List.finRange l.length).map e).map fun j : Fin _ => l'[(j : ℕ)] := by
    refine List.ext_getElem (by simp) fun i hi _ => ?_
    have := h ⟨i, hi⟩
    simp_all
  have hperm : ((List.finRange l.length).map e).Perm (List.finRange l'.length) := by
    refine (List.perm_ext_iff_of_nodup ?_ (List.nodup_finRange _)).2 fun j => ?_
    · exact (List.nodup_finRange _).map e.injective
    · simp [e.surjective j]
  rw [hmap]
  refine (hperm.map _).trans ?_
  rw [List.map_getElem_finRange]

/-- What a node hears over an arc: the label at the other end with the mark of the arc. -/
def Arc.heard (o : HashOptions) (labels : List String) (i : ℕ) (a : Arc) : Option String :=
  if a.source = i then some (o.mark a.attributes ++ (labels[a.target]?).getD "")
  else if a.target = i then some (o.mark a.attributes ++ (labels[a.source]?).getD "")
  else none

namespace Graph

/-- The labels that a round sorts for a node are those that the node hears. -/
theorem map_neighbours (g : Graph) (o : HashOptions) (labels : List String) (i : ℕ) :
    (g.neighbours o i).map (markedLabel labels) = g.arcs.filterMap (Arc.heard o labels i) := by
  rw [neighbours, List.map_filterMap]
  refine List.filterMap_congr fun a _ => ?_
  rw [Arc.heard]
  split
  · rfl
  · split <;> rfl

/-- Nodes and edges of two graphs correspond one to one, up to what a hash looks at. -/
structure Correspondence (o : HashOptions) (g h : Graph) where
  /-- The node of the second graph that a node of the first one corresponds to. -/
  node : Fin g.nodes.length ≃ Fin h.nodes.length
  /-- The edge of the second graph that an edge of the first one corresponds to. -/
  arc : Fin g.arcs.length ≃ Fin h.arcs.length
  ends_arc : ∀ k, h.ends (arc k) = (g.ends k).map node
  node_label : ∀ f ∈ o.nodeLabel?, ∀ i,
    f (h.node (node i)).attributes = f (g.node i).attributes
  edge_label : ∀ f ∈ o.edgeLabel?, ∀ k,
    f (h.arc (arc k)).attributes = f (g.arc k).attributes

/-- Two graphs are alike for a hash. -/
def Alike (g : Graph) (o : HashOptions) (h : Graph) : Prop := Nonempty (Correspondence o g h)

namespace Correspondence

variable {o : HashOptions} {g h : Graph} (c : Correspondence o g h)

/-- Corresponding arcs are all arcs, in another order. -/
theorem arcs_perm {β : Type} {f f' : Arc → β} (hf : ∀ k, f' (h.arc (c.arc k)) = f (g.arc k)) :
    (g.arcs.map f).Perm (h.arcs.map f') := by
  refine perm_of_equiv c.arc (List.length_map _) (List.length_map _) fun k => ?_
  have := hf k
  simp_all [Graph.arc]

/-- A corresponding arc joins the corresponding positions, in this order or in the other. -/
theorem positions_arc (k : Fin g.arcs.length) :
    ∃ x y : Fin g.nodes.length, (g.arc k).source = x ∧ (g.arc k).target = y ∧
      ((h.arc (c.arc k)).source = c.node x ∧ (h.arc (c.arc k)).target = c.node y ∨
        (h.arc (c.arc k)).source = c.node y ∧ (h.arc (c.arc k)).target = c.node x) := by
  refine ⟨g.source k, g.target k, rfl, rfl, ?_⟩
  have hends := c.ends_arc k
  rw [ends, ends, Sym2.map_mk, Sym2.eq_iff] at hends
  simp only [Fin.ext_iff] at hends
  exact hends

/-- Nodes that correspond to one node are one node. -/
theorem node_val_inj {x i : Fin g.nodes.length} : (c.node x : ℕ) = c.node i ↔ (x : ℕ) = i := by
  rw [← Fin.ext_iff, c.node.injective.eq_iff, Fin.ext_iff]

/-- Corresponding arcs put the same mark before a label. -/
theorem mark_arc (k : Fin g.arcs.length) :
    o.mark (h.arc (c.arc k)).attributes = o.mark (g.arc k).attributes := by
  rw [HashOptions.mark, HashOptions.mark]
  cases hf : o.edgeLabel? with
  | none => rfl
  | some f => exact c.edge_label f hf k

/-- Corresponding arcs have as many ends at corresponding nodes. -/
theorem endsAt_arc (k : Fin g.arcs.length) (i : Fin g.nodes.length) :
    (h.arc (c.arc k)).endsAt (c.node i) = (g.arc k).endsAt i := by
  obtain ⟨x, y, hx, hy, ⟨hs, ht⟩ | ⟨hs, ht⟩⟩ := c.positions_arc k
  · rw [Arc.endsAt, Arc.endsAt, hs, ht, hx, hy]
    simp only [c.node_val_inj]
  · rw [Arc.endsAt, Arc.endsAt, hs, ht, hx, hy, Nat.add_comm]
    simp only [c.node_val_inj]

/-- Corresponding nodes have the same degree. -/
theorem degree_node (i : Fin g.nodes.length) :
    h.degree (h.node (c.node i)).id = g.degree (g.node i).id := by
  rw [degree_eq_sum, degree_eq_sum]
  exact (c.arcs_perm fun k => c.endsAt_arc k i).sum_eq.symm

end Correspondence

end Graph

end GraphCompare
