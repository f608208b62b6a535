import Mathlib
import GraphCompare.Proofs.Edit.Path
import GraphCompare.Proofs.Edit.Script

/-!
# The distance is a metric

The search treats the two graphs quite differently, so two runs of it have nothing in common but
what they find: the least cost of a partial injection. It is the least cost that is symmetric, is
zero for isomorphic shapes only, and satisfies the triangle inequality.

A matching costs the same the other way round (`Matching.cost_symm`). Two matchings one after
another (`Matching.comp`) lose the nodes that the first maps to a node that the second deletes. That
they still cost no more than both together (`Matching.cost_comp_le`) is shown by savings, node by
node and pair by pair of the shape between. There each of the three matchings saves what the labels
save that the node comes from and goes to, with no label on a side that is missing
(`Matching.MeetIn.savingOf_eq`), and so it is left to compare the savings of three multisets
(`saving_triangle`).
-/

namespace GraphCompare

open Edit (Target labelReached edgesReached imageOf imageOf_eq_some)

/-- What two pairs of multisets with one in common save, the outer two save but for what that one
holds. -/
theorem saving_triangle (s t u : Multiset String) :
    saving s t + saving t u ≤ saving s u + 2 * t.card := by
  have htriangle := changes_triangle s t u
  have hst := changes_add_saving s t
  have htu := changes_add_saving t u
  have hsu := changes_add_saving s u
  omega

namespace Matching

variable {G H K : Shape}

/-! ## The other direction -/

/-- The same pairs the other way round. -/
def symm (m : Matching G H) : Matching H G where
  pairs := m.pairs.map (Equiv.prodComm ℕ ℕ).toEmbedding
  inside p hp := by
    obtain ⟨q, hq, rfl⟩ := Finset.mem_map.1 hp
    exact (m.inside q hq).symm
  one_to_one p hp q hq := by
    obtain ⟨p', hp', rfl⟩ := Finset.mem_map.1 hp
    obtain ⟨q', hq', rfl⟩ := Finset.mem_map.1 hq
    exact (m.one_to_one p' hp' q' hq').symm

theorem mem_symm {m : Matching G H} {u v : ℕ} : (v, u) ∈ m.symm.pairs ↔ (u, v) ∈ m.pairs := by
  simp [symm]

/-- A matching saves the same in both directions. -/
theorem savingOf_symm (m : Matching G H) :
    savingOf H G m.symm.pairs = savingOf G H m.pairs := by
  have hnode : ∀ p, nodeSaving H G (Equiv.prodComm ℕ ℕ p) = nodeSaving G H p := fun p => by
    simp only [nodeSaving, Equiv.prodComm_apply, Prod.fst_swap, Prod.snd_swap, eq_comm]
  have hedge : ∀ p q, edgeSaving H G (Equiv.prodComm ℕ ℕ p) (Equiv.prodComm ℕ ℕ q) =
      edgeSaving G H p q := fun p q => saving_comm _ _
  simp only [savingOf, symm, Finset.sum_map, Equiv.coe_toEmbedding, hnode, hedge]

/-- A matching costs the same in both directions. -/
theorem cost_symm (m : Matching G H) : m.symm.cost = m.cost := by
  have hcost := m.cost_add_saving
  have hcost' := m.symm.cost_add_saving
  rw [m.savingOf_symm] at hcost'
  omega

/-! ## One matching after another -/

/-- The nodes that are mapped by one matching after another. -/
def comp (m : Matching G H) (m' : Matching H K) : Matching G K where
  pairs := ((m.pairs ×ˢ m'.pairs).filter fun x => x.1.2 = x.2.1).image fun x => (x.1.1, x.2.2)
  inside p hp := by
    obtain ⟨x, hx, rfl⟩ := Finset.mem_image.1 hp
    obtain ⟨hx, -⟩ := Finset.mem_filter.1 hx
    exact ⟨(m.inside _ (Finset.mem_product.1 hx).1).1, (m'.inside _ (Finset.mem_product.1 hx).2).2⟩
  one_to_one p hp q hq := by
    obtain ⟨x, hx, rfl⟩ := Finset.mem_image.1 hp
    obtain ⟨y, hy, rfl⟩ := Finset.mem_image.1 hq
    obtain ⟨hx, hxx⟩ := Finset.mem_filter.1 hx
    obtain ⟨hy, hyy⟩ := Finset.mem_filter.1 hy
    obtain ⟨hx, hx'⟩ := Finset.mem_product.1 hx
    obtain ⟨hy, hy'⟩ := Finset.mem_product.1 hy
    rw [m.one_to_one _ hx _ hy, hxx, hyy, m'.one_to_one _ hx' _ hy']

/-- A node goes by way of a node between. -/
theorem mem_comp {m : Matching G H} {m' : Matching H K} {u w : ℕ} :
    (u, w) ∈ (m.comp m').pairs ↔ ∃ v, (u, v) ∈ m.pairs ∧ (v, w) ∈ m'.pairs := by
  constructor
  · intro h
    obtain ⟨⟨⟨u', v⟩, ⟨v', w'⟩⟩, hx, he⟩ := Finset.mem_image.1 h
    cases he
    obtain ⟨hx, hv⟩ := Finset.mem_filter.1 hx
    obtain rfl : v = v' := hv
    obtain ⟨hm, hm'⟩ := Finset.mem_product.1 hx
    exact ⟨v, hm, hm'⟩
  · rintro ⟨v, hm, hm'⟩
    refine Finset.mem_image.2 ⟨((u, v), (v, w)), ?_, rfl⟩
    exact Finset.mem_filter.2 ⟨Finset.mem_product.2 ⟨hm, hm'⟩, rfl⟩

/-- Pairs that meet in the nodes of a third shape: a node stands for the pair of what it goes back to
and what it goes forth to, if it does both. -/
structure MeetIn (pairs : Finset (ℕ × ℕ)) (middle : Finset ℕ) (back forth : ℕ → Target) :
    Prop where
  mem_iff : ∀ {u w}, (u, w) ∈ pairs ↔ ∃ v ∈ middle, back v = some u ∧ forth v = some w
  inj : ∀ {v v' u}, back v = some u → back v' = some u → v = v'

variable {pairs : Finset (ℕ × ℕ)} {middle : Finset ℕ} {back forth : ℕ → Target}

/-- A sum over pairs is one over the nodes in which they meet. -/
theorem MeetIn.sum_eq (h : MeetIn pairs middle back forth) (f : Target → Target → ℕ)
    (hf : ∀ t, f none t = 0) (hf' : ∀ t, f t none = 0) :
    ∑ p ∈ pairs, f (some p.1) (some p.2) = ∑ v ∈ middle, f (back v) (forth v) := by
  have hmiddle : ∀ p : ℕ × ℕ, ∃ v, p ∈ pairs → v ∈ middle ∧ back v = some p.1 ∧
      forth v = some p.2 := by
    intro p
    by_cases hp : p ∈ pairs
    · obtain ⟨v, hv⟩ := h.mem_iff.1 hp
      exact ⟨v, fun _ => hv⟩
    · exact ⟨0, fun hp' => absurd hp' hp⟩
  choose e he using hmiddle
  refine Finset.sum_of_injOn e (fun p hp q hq hpq => ?_) (fun p hp => (he p hp).1)
    (fun v hv hnot => ?_) fun p hp => ?_
  · obtain ⟨-, hb, hf⟩ := he p hp
    obtain ⟨-, hb', hf'⟩ := he q hq
    rw [hpq] at hb hf
    exact Prod.ext (Option.some.inj (hb.symm.trans hb')) (Option.some.inj (hf.symm.trans hf'))
  · cases hb : back v with
    | none => exact hf _
    | some u =>
      cases hw : forth v with
      | none => exact hf' _
      | some w =>
        have hp : (u, w) ∈ pairs := h.mem_iff.2 ⟨v, hv, hb, hw⟩
        exact absurd ⟨(u, w), hp, h.inj (he _ hp).2.1 hb⟩ hnot
  · rw [(he p hp).2.1, (he p hp).2.2]

/-- The saving of pairs, as sums over the nodes in which they meet. -/
theorem MeetIn.savingOf_eq (h : MeetIn pairs middle back forth) :
    savingOf G K pairs =
      ∑ v ∈ middle, saving (labelReached G (back v)) (labelReached K (forth v)) +
      ∑ v ∈ middle, ∑ v' ∈ middle, saving (edgesReached G (back v) (back v'))
        (edgesReached K (forth v) (forth v')) := by
  have hnode : ∑ p ∈ pairs, nodeSaving G K p =
      ∑ v ∈ middle, saving (labelReached G (back v)) (labelReached K (forth v)) := by
    simp only [nodeSaving_eq]
    exact h.sum_eq (fun t s => saving (labelReached G t) (labelReached K s))
      (fun t => saving_zero_left _) (fun t => saving_zero_right _)
  have hedge : ∑ p ∈ pairs, ∑ q ∈ pairs, edgeSaving G K p q =
      ∑ v ∈ middle, ∑ v' ∈ middle, saving (edgesReached G (back v) (back v'))
        (edgesReached K (forth v) (forth v')) := by
    have hrow : ∀ p : ℕ × ℕ, ∑ q ∈ pairs, edgeSaving G K p q =
        ∑ v' ∈ middle, saving (edgesReached G (some p.1) (back v'))
          (edgesReached K (some p.2) (forth v')) := fun p =>
      h.sum_eq (fun t s => saving (edgesReached G (some p.1) t) (edgesReached K (some p.2) s))
        (fun t => saving_zero_left _) (fun t => saving_zero_right _)
    simp only [hrow]
    refine h.sum_eq (fun t s => ∑ v' ∈ middle, saving (edgesReached G t (back v'))
      (edgesReached K s (forth v'))) (fun t => ?_) fun t => ?_
    · exact Finset.sum_eq_zero fun v' _ => saving_zero_left _
    · exact Finset.sum_eq_zero fun v' _ => saving_zero_right _
  rw [savingOf, hnode, hedge]

/-- The pairs of a matching meet in the nodes that they go to. -/
theorem meetIn_range (m : Matching G H) : MeetIn m.pairs H.nodes (imageOf m.symm) some where
  mem_iff {u v} := by
    simp only [imageOf_eq_some, mem_symm, Option.some.injEq]
    constructor
    · exact fun h => ⟨v, (m.inside _ h).2, h, rfl⟩
    · rintro ⟨v, -, h, rfl⟩
      exact h
  inj h h' := by
    rw [imageOf_eq_some, mem_symm] at h h'
    exact (m.one_to_one _ h _ h').1 rfl

/-- The pairs of a matching meet in the nodes that they come from. -/
theorem meetIn_domain (m : Matching H K) : MeetIn m.pairs H.nodes some (imageOf m) where
  mem_iff {v w} := by
    simp only [imageOf_eq_some, Option.some.injEq]
    constructor
    · exact fun h => ⟨v, (m.inside _ h).1, rfl, h⟩
    · rintro ⟨v, -, rfl, h⟩
      exact h
  inj h h' := Option.some.inj (h.trans h'.symm)

/-- The pairs of two matchings one after another meet in the nodes between. -/
theorem meetIn_comp (m : Matching G H) (m' : Matching H K) :
    MeetIn (m.comp m').pairs H.nodes (imageOf m.symm) (imageOf m') where
  mem_iff {u w} := by
    simp only [imageOf_eq_some, mem_symm, mem_comp]
    constructor
    · rintro ⟨v, h, h'⟩
      exact ⟨v, (m.inside _ h).2, h, h'⟩
    · rintro ⟨v, -, h, h'⟩
      exact ⟨v, h, h'⟩
  inj := m.meetIn_range.inj

/-- Two matchings one after another save what they save apart, but for twice the size of the shape
between. -/
theorem savingOf_add_savingOf_le (m : Matching G H) (m' : Matching H K) :
    savingOf G H m.pairs + savingOf H K m'.pairs ≤
      savingOf G K (m.comp m').pairs + 2 * H.size := by
  have hedges : ∑ v ∈ H.nodes, ∑ v' ∈ H.nodes, (H.between v v').card = H.edges.card := by
    rw [H.card_edgesWithin, H.edgesWithin_nodes]
  have hnode := Finset.sum_le_sum fun v (_ : v ∈ H.nodes) =>
    saving_triangle (labelReached G (imageOf m.symm v)) {H.label v} (labelReached K (imageOf m' v))
  have hedge := Finset.sum_le_sum fun v (_ : v ∈ H.nodes) =>
    Finset.sum_le_sum fun v' (_ : v' ∈ H.nodes) =>
      saving_triangle (edgesReached G (imageOf m.symm v) (imageOf m.symm v')) (H.between v v')
        (edgesReached K (imageOf m' v) (imageOf m' v'))
  simp only [Finset.sum_add_distrib, ← Finset.mul_sum, Multiset.card_singleton, hedges,
    Finset.sum_const, smul_eq_mul, mul_one] at hnode hedge
  rw [m.meetIn_range.savingOf_eq, m'.meetIn_domain.savingOf_eq, (m.meetIn_comp m').savingOf_eq,
    Shape.size]
  simp only [labelReached, edgesReached] at hnode hedge ⊢
  omega

/-- Two matchings one after another cost no more than both together. -/
theorem cost_comp_le (m : Matching G H) (m' : Matching H K) :
    (m.comp m').cost ≤ m.cost + m'.cost := by
  have hcost := m.cost_add_saving
  have hcost' := m'.cost_add_saving
  have hcomp := (m.comp m').cost_add_saving
  have hsaving := m.savingOf_add_savingOf_le m'
  omega

end Matching

/-! ## The distance of shapes -/

namespace Shape

/-- The distance is the same from either side. -/
theorem distance_comm (G H : Shape) : G.distance H = H.distance G := by
  have hle : ∀ G H : Shape, G.distance H ≤ H.distance G := by
    intro G H
    obtain ⟨m, hm⟩ := exists_cost_eq_distance H G
    exact (distance_le m.symm).trans_eq (m.cost_symm.trans hm)
  exact le_antisymm (hle G H) (hle H G)

/-- The way by a third shape is no shorter. -/
theorem distance_triangle (G H K : Shape) : G.distance K ≤ G.distance H + H.distance K := by
  obtain ⟨m, hm⟩ := exists_cost_eq_distance G H
  obtain ⟨m', hm'⟩ := exists_cost_eq_distance H K
  rw [← hm, ← hm']
  exact (distance_le (m.comp m')).trans (m.cost_comp_le m')

end Shape

/-! ## The distance that is reported -/

namespace Graph

/-- **Zero distance means label isomorphism**, under every bound. -/
theorem editDistance?_eq_zero_iff (A B : Graph) (bound : UInt64) :
    distanceOrMinusOne (A.editDistance? B bound) = 0 ↔ A.shape.Isomorphic B.shape := by
  rw [← Shape.distance_eq_zero_iff, Edit.editDistance?_eq_of_limit]
  split <;> rename_i hlt
  · exact Int.natCast_eq_zero
  · have hlimit : 0 < min (bound.toNat + 1) Edit.Problem.maxSize :=
      lt_min (Nat.succ_pos _) (by decide)
    constructor
    · intro h
      cases h
    · intro h
      exact absurd (h ▸ hlimit) hlt

/-- **The reported distance is symmetric**, and so is that there is none within the bound. -/
theorem editDistance?_comm (A B : Graph) (bound : UInt64) :
    distanceOrMinusOne (A.editDistance? B bound) =
      distanceOrMinusOne (B.editDistance? A bound) := by
  rw [Edit.editDistance?_eq_of_limit, Edit.editDistance?_eq_of_limit, Shape.distance_comm]

/-- A distance that is reported is the least cost. -/
theorem distance_eq_of_editDistance? {A B : Graph} {bound : UInt64} {d : ℕ}
    (h : distanceOrMinusOne (A.editDistance? B bound) = d) : A.shape.distance B.shape = d := by
  rw [Edit.editDistance?_eq_of_limit] at h
  split at h
  · exact Int.natCast_inj.1 h
  · simp only [distanceOrMinusOne] at h
    omega

/-- **The reported distances satisfy the triangle inequality.** If the distances from one graph to a
second and from there to a third are found within some bounds, a distance from the first to the
third that is no greater than both together is found within every bound that admits it. -/
theorem editDistance?_triangle {A B C : Graph} {bound bound' bound'' : UInt64} {x y : ℕ}
    (hA : A.Indexable) (hC : C.Indexable)
    (hx : distanceOrMinusOne (A.editDistance? B bound) = x)
    (hy : distanceOrMinusOne (B.editDistance? C bound') = y) (h : x + y ≤ bound''.toNat) :
    ∃ z : ℕ, distanceOrMinusOne (A.editDistance? C bound'') = z ∧ z ≤ x + y := by
  have htriangle := Shape.distance_triangle A.shape B.shape C.shape
  rw [distance_eq_of_editDistance? hx, distance_eq_of_editDistance? hy] at htriangle
  refine ⟨A.shape.distance C.shape, ?_, htriangle⟩
  rw [Edit.editDistance?_eq hA hC, if_pos (htriangle.trans h)]
  rfl

/-- By way of the graph with a single call, the two calls become the graph with a call from a later
node in two edits and one, and in no fewer: the bound three is just enough. -/
theorem editDistance?_twoCalls_calledFirst :
    (twoCalls.Indexable ∧ calledFirst.Indexable ∧
      distanceOrMinusOne (twoCalls.editDistance? oneCall 2) = (2 : ℕ) ∧
      distanceOrMinusOne (oneCall.editDistance? calledFirst 500) = (1 : ℕ) ∧
      2 + 1 ≤ UInt64.toNat 3) ∧
    (∃ z : ℕ, distanceOrMinusOne (twoCalls.editDistance? calledFirst 3) = z ∧ z ≤ 2 + 1) ∧
    distanceOrMinusOne (twoCalls.editDistance? calledFirst 2) = -1 := by
  have hindexable : calledFirst.Indexable := by decide
  have hx : distanceOrMinusOne (twoCalls.editDistance? oneCall 2) = (2 : ℕ) := by cbv
  have hy : distanceOrMinusOne (oneCall.editDistance? calledFirst 500) = (1 : ℕ) := by cbv
  have hnone : distanceOrMinusOne (twoCalls.editDistance? calledFirst 2) = -1 := by cbv
  have hbound : 2 + 1 ≤ UInt64.toNat 3 := by decide
  exact ⟨⟨twoCalls_indexable, hindexable, hx, hy, hbound⟩,
    editDistance?_triangle twoCalls_indexable hindexable hx hy hbound, hnone⟩

end Graph

end GraphCompare
