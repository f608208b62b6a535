import Mathlib
import GraphCompare.Proofs.Edit.Exact
import GraphCompare.Proofs.Edit.Operation

/-!
# Edit scripts

A script is a list of single edits, and `Shape.run` applies them one after another.
`scriptLengths G H` are the lengths of the scripts that turn `G` into a shape isomorphic to `H`. The
least of them is the distance of the two shapes (`isLeast_scriptLengths`):

* no script is shorter, because every edit changes the distance to `H` by at most one and an
  isomorphic shape has distance zero;
* a matching of cost `n` gives a script of length `n`, edit by edit: as long as the cost is not
  zero, some edit lowers it by exactly one (`exists_edit`). Edges and nodes that are left over are
  deleted first, then the missing nodes are inserted, and what remains is relabelled or adjusted
  edge by edge.
-/

namespace GraphCompare

namespace Shape

/-- Applies the edits of a script in order; nothing, if one of them is not allowed. -/
def run (G : Shape) (script : List Edit) : Option Shape := script.foldlM perform? G

/-- The lengths of the scripts that turn a shape into a copy of another. -/
def scriptLengths (G H : Shape) : Set ℕ :=
  {n | ∃ script, script.length = n ∧ ∃ G', G.run script = some G' ∧ G'.Isomorphic H}

variable {G G' H K : Shape}

theorem run_cons (G : Shape) (s : Edit) (script : List Edit) :
    G.run (s :: script) = (G.perform? s).bind fun G' => G'.run script := by
  rw [run, List.foldlM_cons]
  rfl

/-- A script brings a shape no closer to another than by its length. -/
theorem distance_le_of_run {script : List Edit} (h : G.run script = some G') :
    G.distance K ≤ G'.distance K + script.length := by
  induction script generalizing G with
  | nil =>
    cases h
    exact le_rfl
  | cons s script ih =>
    rw [run_cons, Option.bind_eq_some_iff] at h
    obtain ⟨G₁, hperform, hrun⟩ := h
    have hstep := distance_le_of_perform (K := K) hperform
    have hrest := ih hrun
    rw [List.length_cons]
    omega

end Shape

namespace Matching

variable {G G' H : Shape}

/-! ## Matchings without cost -/

/-- A matching costs nothing exactly if it leaves nothing over and changes nothing. -/
theorem cost_eq_zero_iff (m : Matching G H) : m.cost = 0 ↔
    m.domain = G.nodes ∧ m.range = H.nodes ∧ (∀ p ∈ m.pairs, G.label p.1 = H.label p.2) ∧
      ∀ p ∈ m.pairs, ∀ q ∈ m.pairs, G.between p.1 q.1 = H.between p.2 q.2 := by
  unfold cost
  simp only [Nat.add_eq_zero_iff, Finset.card_eq_zero, Finset.filter_eq_empty_iff, not_not,
    Finset.sdiff_eq_empty_iff_subset, Finset.sum_eq_zero_iff, changes_eq_zero,
    Multiset.card_eq_zero]
  constructor
  · rintro ⟨⟨⟨⟨⟨hlabel, hdom⟩, hran⟩, hbetween⟩, -⟩, -⟩
    exact ⟨m.domain_subset.antisymm hdom, m.range_subset.antisymm hran, hlabel, hbetween⟩
  · rintro ⟨hdom, hran, hlabel, hbetween⟩
    refine ⟨⟨⟨⟨⟨hlabel, hdom.ge⟩, hran.ge⟩, hbetween⟩, ?_⟩, ?_⟩
    · rw [hdom]
      exact Multiset.filter_eq_nil.2 fun e he hn => hn (G.inside e he)
    · rw [hran]
      exact Multiset.filter_eq_nil.2 fun e he hn => hn (H.inside e he)

/-- A matching without cost is an isomorphism. -/
theorem isomorphic_of_cost_eq_zero (m : Matching G H) (h : m.cost = 0) : G.Isomorphic H := by
  obtain ⟨hdom, hran, hlabel, hbetween⟩ := m.cost_eq_zero_iff.1 h
  have himage : ∀ u : G.nodes, ∃ v : H.nodes, (u.1, v.1) ∈ m.pairs := by
    rintro ⟨u, hu⟩
    rw [← hdom] at hu
    obtain ⟨p, hp, rfl⟩ := Finset.mem_image.1 hu
    exact ⟨⟨p.2, (m.inside p hp).2⟩, hp⟩
  choose f hf using himage
  have hbij : Function.Bijective f := by
    constructor
    · intro u w he
      exact Subtype.ext ((m.one_to_one _ (hf u) _ (hf w)).2 (congrArg Subtype.val he))
    · rintro ⟨v, hv⟩
      rw [← hran] at hv
      obtain ⟨p, hp, rfl⟩ := Finset.mem_image.1 hv
      exact ⟨⟨p.1, (m.inside p hp).1⟩, Subtype.ext ((m.one_to_one _ (hf _) p hp).1 rfl)⟩
  exact ⟨Equiv.ofBijective f hbij, fun u => (hlabel _ (hf u)).symm,
    fun u w => (hbetween _ (hf u) _ (hf w)).symm⟩

/-- The matching of all nodes by a bijection. -/
def ofEquiv (e : G.nodes ≃ H.nodes) : Matching G H where
  pairs := G.nodes.attach.image fun u => (u.1, (e u).1)
  inside p hp := by
    obtain ⟨u, -, rfl⟩ := Finset.mem_image.1 hp
    exact ⟨u.2, (e u).2⟩
  one_to_one p hp q hq := by
    obtain ⟨u, -, rfl⟩ := Finset.mem_image.1 hp
    obtain ⟨w, -, rfl⟩ := Finset.mem_image.1 hq
    simp only [← Subtype.ext_iff, e.apply_eq_iff_eq]

end Matching

/-- Isomorphic shapes have distance zero. -/
theorem Shape.Isomorphic.distance_eq_zero {G H : Shape} (h : G.Isomorphic H) :
    G.distance H = 0 := by
  obtain ⟨e, hlabel, hbetween⟩ := h
  have hcost : (Matching.ofEquiv e).cost = 0 := by
    refine (Matching.cost_eq_zero_iff _).2 ⟨?_, ?_, ?_, ?_⟩
    · ext u
      simp [Matching.domain, Matching.ofEquiv]
    · ext v
      simp only [Matching.range, Matching.ofEquiv, Finset.image_image, Finset.mem_image,
        Finset.mem_attach, true_and, Function.comp_apply]
      constructor
      · rintro ⟨u, rfl⟩
        exact (e u).2
      · exact fun hv => ⟨e.symm ⟨v, hv⟩, by simp⟩
    · intro p hp
      obtain ⟨u, -, rfl⟩ := Finset.mem_image.1 hp
      exact (hlabel u).symm
    · intro p hp q hq
      obtain ⟨u, -, rfl⟩ := Finset.mem_image.1 hp
      obtain ⟨w, -, rfl⟩ := Finset.mem_image.1 hq
      exact (hbetween u w).symm
  exact Nat.eq_zero_of_le_zero (hcost ▸ Shape.distance_le _)

/-- The shapes without distance are the isomorphic ones. -/
theorem Shape.distance_eq_zero_iff {G H : Shape} : G.distance H = 0 ↔ G.Isomorphic H := by
  refine ⟨fun h => ?_, Isomorphic.distance_eq_zero⟩
  obtain ⟨m, hm⟩ := exists_cost_eq_distance G H
  exact m.isomorphic_of_cost_eq_zero (hm.trans h)

/-! ## An edit that lowers the cost -/

namespace Matching

open Shape

variable {G G' H : Shape}

/-- An edit has lowered the cost of a matching by one if what it adds to the shape and what the
matching saves more are balanced but for one. -/
theorem cost_succ (m : Matching G H) (m' : Matching G' H)
    (h : G'.size + savingOf G H m.pairs + 1 = G.size + savingOf G' H m'.pairs) :
    m'.cost + 1 = m.cost := by
  have hcost := m.cost_add_saving
  have hcost' := m'.cost_add_saving
  omega

/-- Sums that differ in one term differ by what that term differs. -/
theorem sum_eq_add {ι : Type*} [DecidableEq ι] {s : Finset ι} {f g : ι → ℕ} {i : ι} (hi : i ∈ s)
    {k : ℕ} (hk : f i = g i + k) (h : ∀ j ∈ s, j ≠ i → f j = g j) :
    ∑ j ∈ s, f j = ∑ j ∈ s, g j + k := by
  have hrest : ∑ j ∈ s.erase i, f j = ∑ j ∈ s.erase i, g j :=
    Finset.sum_congr rfl fun j hj =>
      h j (Finset.mem_of_mem_erase hj) (Finset.ne_of_mem_erase hj)
  rw [← Finset.add_sum_erase s f hi, ← Finset.add_sum_erase s g hi, hk, hrest]
  omega

/-- If the edges of one ordered pair of nodes save more, and nothing else changes, all pairs
together save so much more. -/
theorem savingOf_add {P : Finset (ℕ × ℕ)} {p q : ℕ × ℕ} (hp : p ∈ P) (hq : q ∈ P) {k : ℕ}
    (hlabel : G'.label = G.label)
    (hpq : edgeSaving G' H p q = edgeSaving G H p q + k)
    (hother : ∀ p' ∈ P, ∀ q' ∈ P, ¬(p' = p ∧ q' = q) →
      G'.between p'.1 q'.1 = G.between p'.1 q'.1) :
    savingOf G' H P = savingOf G H P + k := by
  have hrow : ∑ p' ∈ P, ∑ q' ∈ P, edgeSaving G' H p' q' =
      ∑ p' ∈ P, ∑ q' ∈ P, edgeSaving G H p' q' + k := by
    refine sum_eq_add hp (sum_eq_add hq hpq fun q' hq' hne => ?_) fun p' hp' hne => ?_
    · unfold edgeSaving
      rw [hother p hp q' hq' fun h => hne h.2]
    · refine Finset.sum_congr rfl fun q' hq' => ?_
      unfold edgeSaving
      rw [hother p' hp' q' hq' fun h => hne h.1]
  unfold savingOf nodeSaving
  rw [hrow, hlabel]
  omega

/-- An edge that touches a node left over is deleted. -/
theorem exists_edit_of_edge (m : Matching G H) {e : Link} (he : e ∈ G.edges)
    (hout : ¬(e.1 ∈ m.domain ∧ e.2.1 ∈ m.domain)) :
    ∃ s G', G.perform? s = some G' ∧ ∃ m' : Matching G' H, m'.cost + 1 = m.cost := by
  refine ⟨.deleteEdge e, G.deleteEdge e, if_pos he,
    m.transfer fun p hp => (m.inside p hp).1, m.cost_succ _ ?_⟩
  have hsaving : savingOf G H m.pairs = savingOf (G.deleteEdge e) H m.pairs := by
    refine savingOf_congr (fun p _ => rfl) fun p hp q hq => ?_
    have hne : ¬(e.1 = p.1 ∧ e.2.1 = q.1) := by
      rintro ⟨h₁, h₂⟩
      exact hout ⟨h₁ ▸ Finset.mem_image_of_mem _ hp, h₂ ▸ Finset.mem_image_of_mem _ hq⟩
    unfold edgeSaving
    rw [between_deleteEdge he p.1 q.1, linkLabel, if_neg hne, zero_add]
  have hsize := size_deleteEdge he
  simp only [transfer]
  omega

/-- A node left over that no edge touches is deleted. -/
theorem exists_edit_of_node (m : Matching G H) {u : ℕ} (hu : u ∈ G.nodes) (hout : u ∉ m.domain)
    (hiso : G.Isolated u) :
    ∃ s G', G.perform? s = some G' ∧ ∃ m' : Matching G' H, m'.cost + 1 = m.cost := by
  have hin : ∀ p ∈ m.pairs, p.1 ∈ (G.deleteNode u hiso).nodes := by
    intro p hp
    refine Finset.mem_erase.2 ⟨?_, (m.inside p hp).1⟩
    rintro rfl
    exact hout (Finset.mem_image_of_mem _ hp)
  have hperform : G.perform? (.deleteNode u) = some (G.deleteNode u hiso) := by
    simp [perform?, hiso, hu]
  refine ⟨_, _, hperform, m.transfer hin, m.cost_succ _ ?_⟩
  have hsaving : savingOf (G.deleteNode u hiso) H m.pairs = savingOf G H m.pairs := rfl
  have hsize := size_deleteNode hiso hu
  simp only [transfer]
  omega

/-- A node that is no image is inserted under a fresh name. -/
theorem exists_edit_of_image (m : Matching G H) {v : ℕ} (hv : v ∈ H.nodes) (hout : v ∉ m.range) :
    ∃ s G', G.perform? s = some G' ∧ ∃ m' : Matching G' H, m'.cost + 1 = m.cost := by
  obtain ⟨u, hu⟩ := Infinite.exists_notMem_finset G.nodes
  have hne₁ : ∀ p ∈ m.pairs, p.1 ≠ u := by
    rintro p hp rfl
    exact hu (m.inside p hp).1
  have hne₂ : ∀ p ∈ m.pairs, p.2 ≠ v := by
    rintro p hp rfl
    exact hout (Finset.mem_image_of_mem _ hp)
  have hnot : (u, v) ∉ m.pairs := fun h => hne₁ _ h rfl
  let m' : Matching (G.insertNode u (H.label v)) H :=
    m.insertPair (Finset.mem_insert_self _ _) hv
      (fun p hp => ⟨Finset.mem_insert_of_mem (m.inside p hp).1, hne₁ p hp⟩)
      fun p hp => ⟨(m.inside p hp).2, hne₂ p hp⟩
  refine ⟨.insertNode u (H.label v), _, if_neg hu, m', m.cost_succ m' ?_⟩
  have hiso : (G.insertNode u (H.label v)).Isolated u := isolated_of_notMem (G := G) hu
  have hsaving := savingOf_insert (K := H) hiso hnot
  rw [savingOf_insertNode (H.label v) hne₁] at hsaving
  have hnode : nodeSaving (G.insertNode u (H.label v)) H (u, v) = 2 := by
    simp [nodeSaving, insertNode]
  have hsize := size_insertNode (l := H.label v) hu
  have hpairs : m'.pairs = insert (u, v) m.pairs := m.pairs_insertPair _ _ _ _
  rw [hpairs]
  omega

/-- A mapped node with another label is relabelled. -/
theorem exists_edit_of_label (m : Matching G H) {p : ℕ × ℕ} (hp : p ∈ m.pairs)
    (hl : G.label p.1 ≠ H.label p.2) :
    ∃ s G', G.perform? s = some G' ∧ ∃ m' : Matching G' H, m'.cost + 1 = m.cost := by
  refine ⟨.relabelNode p.1 (H.label p.2), _, if_pos (m.inside p hp).1,
    m.transfer fun q hq => (m.inside q hq).1, m.cost_succ _ ?_⟩
  have hnode : ∑ q ∈ m.pairs, nodeSaving (G.relabelNode p.1 (H.label p.2)) H q =
      ∑ q ∈ m.pairs, nodeSaving G H q + 1 := by
    refine sum_eq_add hp (by simp [nodeSaving, relabelNode, hl]) fun q hq hne => ?_
    have hne₁ : q.1 ≠ p.1 := fun h => hne (m.injOn_fst hq hp h)
    simp [nodeSaving, relabelNode, hne₁]
  have hsaving : savingOf (G.relabelNode p.1 (H.label p.2)) H m.pairs =
      savingOf G H m.pairs + 1 := by
    unfold savingOf
    rw [hnode]
    exact Nat.add_right_comm _ _ _
  have hsize : (G.relabelNode p.1 (H.label p.2)).size = G.size := rfl
  simp only [transfer]
  omega

/-- An edge between two mapped nodes touches no other pair of pairs. -/
theorem linkLabel_of_ne (m : Matching G H) {p q p' q' : ℕ × ℕ} (hp : p ∈ m.pairs)
    (hq : q ∈ m.pairs) (hp' : p' ∈ m.pairs) (hq' : q' ∈ m.pairs) (hne : ¬(p' = p ∧ q' = q))
    (l : String) : linkLabel (p.1, q.1, l) p'.1 q'.1 = 0 := by
  refine if_neg ?_
  rintro ⟨h₁, h₂⟩
  exact hne ⟨m.injOn_fst hp' hp h₁.symm, m.injOn_fst hq' hq h₂.symm⟩

theorem linkLabel_self (u w : ℕ) (l : String) : linkLabel (u, w, l) u w = {l} :=
  if_pos ⟨rfl, rfl⟩

/-- Between two mapped nodes with other edges than between their images, an edge is deleted,
inserted or relabelled. -/
theorem exists_edit_of_between (m : Matching G H) {p q : ℕ × ℕ} (hp : p ∈ m.pairs)
    (hq : q ∈ m.pairs) (hne : G.between p.1 q.1 ≠ H.between p.2 q.2) :
    ∃ s G', G.perform? s = some G' ∧ ∃ m' : Matching G' H, m'.cost + 1 = m.cost := by
  rcases lt_trichotomy (G.between p.1 q.1).card (H.between p.2 q.2).card with hlt | heq | hgt
  · -- too few edges: one is inserted
    obtain ⟨l, hl⟩ := saving_cons_of_card_lt hlt
    have hin : p.1 ∈ G.nodes ∧ q.1 ∈ G.nodes := ⟨(m.inside p hp).1, (m.inside q hq).1⟩
    refine ⟨.insertEdge (p.1, q.1, l), G.insertEdge (p.1, q.1, l) hin, dif_pos hin,
      m.transfer fun r hr => (m.inside r hr).1, m.cost_succ _ ?_⟩
    have hsaving : savingOf (G.insertEdge (p.1, q.1, l) hin) H m.pairs =
        savingOf G H m.pairs + 2 := by
      refine savingOf_add hp hq rfl ?_ fun p' hp' q' hq' hne => ?_
      · rw [edgeSaving, between_insertEdge, linkLabel_self, Multiset.singleton_add]
        exact hl
      · rw [between_insertEdge, m.linkLabel_of_ne hp hq hp' hq' hne, zero_add]
    have hsize := size_insertEdge (p.1, q.1, l) hin
    simp only [transfer]
    omega
  · -- as many edges, but other labels: one is relabelled
    obtain ⟨l, hl, l', hl'⟩ := saving_relabel_of_card_eq heq hne
    have he := mem_edges_of_mem_between hl
    have herase : (G.between p.1 q.1).erase l =
        (G.deleteEdge (p.1, q.1, l)).between p.1 q.1 := by
      rw [between_deleteEdge he, linkLabel_self, Multiset.singleton_add,
        Multiset.erase_cons_head]
    refine ⟨.relabelEdge (p.1, q.1, l) l', G.relabelEdge (p.1, q.1, l) l' he, dif_pos he,
      m.transfer fun r hr => (m.inside r hr).1, m.cost_succ _ ?_⟩
    have hsaving : savingOf (G.relabelEdge (p.1, q.1, l) l' he) H m.pairs =
        savingOf G H m.pairs + 1 := by
      refine savingOf_add hp hq rfl ?_ fun p' hp' q' hq' hne => ?_
      · rw [edgeSaving, between_relabelEdge, linkLabel_self, Multiset.singleton_add, ← herase]
        exact hl'
      · rw [between_relabelEdge, between_deleteEdge he,
          m.linkLabel_of_ne hp hq hp' hq' hne, m.linkLabel_of_ne hp hq hp' hq' hne]
    have hsize := size_relabelEdge l' he
    simp only [transfer]
    omega
  · -- too many edges: one is deleted
    obtain ⟨l, hl, hsame⟩ := saving_erase_of_card_lt hgt
    have he := mem_edges_of_mem_between hl
    have herase : (G.between p.1 q.1).erase l =
        (G.deleteEdge (p.1, q.1, l)).between p.1 q.1 := by
      rw [between_deleteEdge he, linkLabel_self, Multiset.singleton_add,
        Multiset.erase_cons_head]
    refine ⟨.deleteEdge (p.1, q.1, l), G.deleteEdge (p.1, q.1, l), if_pos he,
      m.transfer fun r hr => (m.inside r hr).1, m.cost_succ _ ?_⟩
    have hsaving : savingOf (G.deleteEdge (p.1, q.1, l)) H m.pairs =
        savingOf G H m.pairs + 0 := by
      refine savingOf_add hp hq rfl ?_ fun p' hp' q' hq' hne => ?_
      · rw [edgeSaving, ← herase]
        exact hsame
      · rw [between_deleteEdge he p'.1 q'.1, m.linkLabel_of_ne hp hq hp' hq' hne, zero_add]
    have hsize := size_deleteEdge he
    simp only [transfer]
    omega

/-- **As long as a matching costs something, an edit lowers its cost by one.** -/
theorem exists_edit (m : Matching G H) (hcost : m.cost ≠ 0) :
    ∃ s G', G.perform? s = some G' ∧ ∃ m' : Matching G' H, m'.cost + 1 = m.cost := by
  by_cases hedge : ∃ e ∈ G.edges, ¬(e.1 ∈ m.domain ∧ e.2.1 ∈ m.domain)
  · obtain ⟨e, he, hout⟩ := hedge
    exact m.exists_edit_of_edge he hout
  by_cases hnode : ∃ u ∈ G.nodes, u ∉ m.domain
  · obtain ⟨u, hu, hout⟩ := hnode
    push Not at hedge
    refine m.exists_edit_of_node hu hout fun e he => ⟨?_, ?_⟩
    · rintro rfl
      exact hout (hedge e he).1
    · rintro rfl
      exact hout (hedge e he).2
  by_cases himage : ∃ v ∈ H.nodes, v ∉ m.range
  · obtain ⟨v, hv, hout⟩ := himage
    exact m.exists_edit_of_image hv hout
  by_cases hlabel : ∃ p ∈ m.pairs, G.label p.1 ≠ H.label p.2
  · obtain ⟨p, hp, hl⟩ := hlabel
    exact m.exists_edit_of_label hp hl
  by_cases hbetween : ∃ p ∈ m.pairs, ∃ q ∈ m.pairs, G.between p.1 q.1 ≠ H.between p.2 q.2
  · obtain ⟨p, hp, q, hq, hne⟩ := hbetween
    exact m.exists_edit_of_between hp hq hne
  push Not at hnode himage hlabel hbetween
  exact absurd (m.cost_eq_zero_iff.2 ⟨m.domain_subset.antisymm hnode,
    m.range_subset.antisymm himage, hlabel, hbetween⟩) hcost

/-- A matching is carried out by a script of as many edits as it costs. -/
theorem exists_script (m : Matching G H) :
    ∃ script, script.length = m.cost ∧ ∃ G', G.run script = some G' ∧ G'.Isomorphic H := by
  induction hn : m.cost generalizing G with
  | zero => exact ⟨[], rfl, G, rfl, m.isomorphic_of_cost_eq_zero hn⟩
  | succ n ih =>
    obtain ⟨s, G₁, hperform, m₁, hcost⟩ := m.exists_edit (by omega)
    obtain ⟨script, hlen, G', hrun, hiso⟩ := ih m₁ (by omega)
    refine ⟨s :: script, by rw [List.length_cons, hlen], G', ?_, hiso⟩
    rw [run_cons, hperform]
    exact hrun

end Matching

/-! ## The shortest script -/

/-- **The distance of two shapes is the length of a shortest script.** -/
theorem Shape.isLeast_scriptLengths (G H : Shape) :
    IsLeast (scriptLengths G H) (G.distance H) := by
  constructor
  · obtain ⟨m, hm⟩ := exists_cost_eq_distance G H
    obtain ⟨script, hlen, hrun⟩ := m.exists_script
    exact ⟨script, hlen.trans hm, hrun⟩
  · rintro n ⟨script, rfl, G', hrun, hiso⟩
    have hle := distance_le_of_run (K := H) hrun
    rwa [hiso.distance_eq_zero, zero_add] at hle

/-- **The reported distance is the length of a shortest edit script**, as far as the bound goes, and
minus one beyond it. -/
theorem Graph.editDistance?_isLeast_script (A B : Graph) (bound : UInt64) (hA : A.Indexable)
    (hB : B.Indexable) :
    (∀ n : ℕ, distanceOrMinusOne (A.editDistance? B bound) = n ↔
      n ≤ bound.toNat ∧ IsLeast (Shape.scriptLengths A.shape B.shape) n) ∧
    (distanceOrMinusOne (A.editDistance? B bound) = -1 ↔
      ∃ n, IsLeast (Shape.scriptLengths A.shape B.shape) n ∧ bound.toNat < n) := by
  have hleast := Shape.isLeast_scriptLengths A.shape B.shape
  have hiff : ∀ n, IsLeast (Shape.scriptLengths A.shape B.shape) n ↔
      n = A.shape.distance B.shape := by
    intro n
    constructor
    · exact fun hn => hn.unique hleast
    · rintro rfl
      exact hleast
  simp only [hiff]
  rw [Edit.editDistance?_eq hA hB]
  by_cases h : A.shape.distance B.shape ≤ bound.toNat
  · rw [if_pos h]
    constructor
    · intro n
      simp only [distanceOrMinusOne]
      omega
    · simp only [distanceOrMinusOne]
      constructor
      · intro hn
        omega
      · rintro ⟨n, rfl, hn⟩
        omega
  · rw [if_neg h]
    constructor
    · intro n
      simp only [distanceOrMinusOne]
      omega
    · simp only [distanceOrMinusOne, true_iff]
      exact ⟨_, rfl, not_le.1 h⟩

/-- Two calls become one in two edits and no fewer, so that no distance is found below two. -/
theorem Graph.editDistance?_twoCalls :
    (twoCalls.Indexable ∧ oneCall.Indexable) ∧
      IsLeast (Shape.scriptLengths twoCalls.shape oneCall.shape) 2 ∧
      distanceOrMinusOne (twoCalls.editDistance? oneCall 1) = -1 := by
  have hrun : distanceOrMinusOne (twoCalls.editDistance? oneCall 2) = (2 : ℕ) := by cbv
  have hleast := (((editDistance?_isLeast_script twoCalls oneCall 2 twoCalls_indexable
    oneCall_indexable).1 2).1 hrun).2
  refine ⟨⟨twoCalls_indexable, oneCall_indexable⟩, hleast, ?_⟩
  exact (editDistance?_isLeast_script twoCalls oneCall 1 twoCalls_indexable
    oneCall_indexable).2.2 ⟨2, hleast, by decide⟩

end GraphCompare
