import Mathlib
import GraphCompare.Proofs.Edit.Shape

/-!
# Single edits of a shape

The six edits that a shape allows, as operations on shapes, and what each does to the edge labels
between two nodes. `Shape.perform?` applies an edit where it is allowed and refuses it otherwise: a
node is deleted only without edges, and an edge is inserted only between nodes that exist.

No edit changes the distance to a third shape by more than one (`distance_le_of_perform`): a
matching of the shape after the edit is, up to a node that the edit inserted, a matching of the
shape before, and its saving differs by no more than the sizes leave room for.
-/

namespace GraphCompare

namespace Shape

/-- A single edit. -/
inductive Edit where
  | insertNode (u : ℕ) (label : String)
  | deleteNode (u : ℕ)
  | relabelNode (u : ℕ) (label : String)
  | insertEdge (e : Link)
  | deleteEdge (e : Link)
  | relabelEdge (e : Link) (label : String)
deriving DecidableEq

variable (G : Shape)

/-- Whether no edge touches a node. -/
def Isolated (u : ℕ) : Prop := ∀ e ∈ G.edges, e.1 ≠ u ∧ e.2.1 ≠ u

instance (u : ℕ) : Decidable (G.Isolated u) :=
  inferInstanceAs (Decidable (∀ e ∈ G.edges, e.1 ≠ u ∧ e.2.1 ≠ u))

/-- The shape with a node without edges. -/
def insertNode (u : ℕ) (l : String) : Shape where
  nodes := insert u G.nodes
  label := Function.update G.label u l
  edges := G.edges
  inside e he := ⟨Finset.mem_insert_of_mem (G.inside e he).1,
    Finset.mem_insert_of_mem (G.inside e he).2⟩

/-- The shape without a node that no edge touches. -/
def deleteNode (u : ℕ) (h : G.Isolated u) : Shape where
  nodes := G.nodes.erase u
  label := G.label
  edges := G.edges
  inside e he := ⟨Finset.mem_erase.2 ⟨(h e he).1, (G.inside e he).1⟩,
    Finset.mem_erase.2 ⟨(h e he).2, (G.inside e he).2⟩⟩

/-- The shape with another label at a node. -/
def relabelNode (u : ℕ) (l : String) : Shape where
  nodes := G.nodes
  label := Function.update G.label u l
  edges := G.edges
  inside := G.inside

/-- The shape with one more edge between nodes that it has. -/
def insertEdge (e : Link) (h : e.1 ∈ G.nodes ∧ e.2.1 ∈ G.nodes) : Shape where
  nodes := G.nodes
  label := G.label
  edges := e ::ₘ G.edges
  inside f hf := by
    rcases Multiset.mem_cons.1 hf with rfl | hf
    · exact h
    · exact G.inside f hf

/-- The shape with one edge less. -/
def deleteEdge (e : Link) : Shape where
  nodes := G.nodes
  label := G.label
  edges := G.edges.erase e
  inside f hf := G.inside f (Multiset.mem_of_mem_erase hf)

/-- The shape with another label on an edge. -/
def relabelEdge (e : Link) (l : String) (h : e ∈ G.edges) : Shape where
  nodes := G.nodes
  label := G.label
  edges := (e.1, e.2.1, l) ::ₘ G.edges.erase e
  inside f hf := by
    rcases Multiset.mem_cons.1 hf with rfl | hf
    · exact G.inside e h
    · exact G.inside f (Multiset.mem_of_mem_erase hf)

/-- Applies an edit where it is allowed. -/
def perform? : Edit → Option Shape
  | .insertNode u l => if u ∈ G.nodes then none else some (G.insertNode u l)
  | .deleteNode u => if h : G.Isolated u then
      if u ∈ G.nodes then some (G.deleteNode u h) else none
    else none
  | .relabelNode u l => if u ∈ G.nodes then some (G.relabelNode u l) else none
  | .insertEdge e => if h : e.1 ∈ G.nodes ∧ e.2.1 ∈ G.nodes then some (G.insertEdge e h) else none
  | .deleteEdge e => if e ∈ G.edges then some (G.deleteEdge e) else none
  | .relabelEdge e l => if h : e ∈ G.edges then some (G.relabelEdge e l h) else none

/-! ## The edges after an edit -/

variable {G}

/-- The label that an edge adds between two nodes. -/
def linkLabel (e : Link) (u w : ℕ) : Multiset String :=
  if e.1 = u ∧ e.2.1 = w then {e.2.2} else 0

theorem between_insertEdge (e : Link) (h : e.1 ∈ G.nodes ∧ e.2.1 ∈ G.nodes) (u w : ℕ) :
    (G.insertEdge e h).between u w = linkLabel e u w + G.between u w :=
  labelsBetween_cons e G.edges u w

theorem between_deleteEdge {e : Link} (h : e ∈ G.edges) (u w : ℕ) :
    G.between u w = linkLabel e u w + (G.deleteEdge e).between u w := by
  have hc := labelsBetween_cons e (G.edges.erase e) u w
  rwa [Multiset.cons_erase h] at hc

theorem between_relabelEdge {e : Link} {l : String} (h : e ∈ G.edges) (u w : ℕ) :
    (G.relabelEdge e l h).between u w =
      linkLabel (e.1, e.2.1, l) u w + (G.deleteEdge e).between u w :=
  labelsBetween_cons (e.1, e.2.1, l) (G.edges.erase e) u w

/-- A label between two nodes belongs to an edge. -/
theorem mem_edges_of_mem_between {u w : ℕ} {l : String} (h : l ∈ G.between u w) :
    (u, w, l) ∈ G.edges := by
  obtain ⟨e, he, rfl⟩ := Multiset.mem_map.1 h
  obtain ⟨hmem, rfl, rfl⟩ := Multiset.mem_filter.1 he
  exact hmem

/-- No edge joins a node that no edge touches. -/
theorem Isolated.between_left {u : ℕ} (h : G.Isolated u) (w : ℕ) : G.between u w = 0 := by
  refine Multiset.eq_zero_of_forall_notMem fun l hl => ?_
  exact (h _ (mem_edges_of_mem_between hl)).1 rfl

theorem Isolated.between_right {u : ℕ} (h : G.Isolated u) (w : ℕ) : G.between w u = 0 := by
  refine Multiset.eq_zero_of_forall_notMem fun l hl => ?_
  exact (h _ (mem_edges_of_mem_between hl)).2 rfl

/-- No edge touches what is no node. -/
theorem isolated_of_notMem {u : ℕ} (h : u ∉ G.nodes) : G.Isolated u := by
  intro e he
  constructor
  · rintro rfl
    exact h (G.inside e he).1
  · rintro rfl
    exact h (G.inside e he).2

/-! ## The sizes after an edit -/

theorem size_insertNode {u : ℕ} {l : String} (h : u ∉ G.nodes) :
    (G.insertNode u l).size = G.size + 1 := by
  have := Finset.card_insert_of_notMem h
  simp only [size, insertNode]
  omega

theorem size_deleteNode {u : ℕ} (h : G.Isolated u) (hu : u ∈ G.nodes) :
    (G.deleteNode u h).size + 1 = G.size := by
  have := Finset.card_erase_add_one hu
  simp only [size, deleteNode]
  omega

theorem size_insertEdge (e : Link) (h : e.1 ∈ G.nodes ∧ e.2.1 ∈ G.nodes) :
    (G.insertEdge e h).size = G.size + 1 := by
  simp only [size, insertEdge, Multiset.card_cons]
  omega

theorem size_deleteEdge {e : Link} (h : e ∈ G.edges) : (G.deleteEdge e).size + 1 = G.size := by
  have := Multiset.card_erase_add_one h
  simp only [size, deleteEdge]
  omega

theorem size_relabelEdge {e : Link} (l : String) (h : e ∈ G.edges) :
    (G.relabelEdge e l h).size = G.size := by
  have := Multiset.card_erase_add_one h
  simp only [size, relabelEdge, Multiset.card_cons]
  omega

end Shape

namespace Matching

variable {G G' K : Shape}

/-! ## Savings before and after an edit -/

/-- The matching of the same pairs, from another shape that has their nodes. -/
def transfer (m : Matching G' K) (h : ∀ p ∈ m.pairs, p.1 ∈ G.nodes) : Matching G K :=
  ⟨m.pairs, fun p hp => ⟨h p hp, (m.inside p hp).2⟩, m.one_to_one⟩

/-- The matching without the pair of a node. -/
def drop (m : Matching G' K) (u : ℕ) (h : ∀ v ∈ G'.nodes, v ≠ u → v ∈ G.nodes) : Matching G K where
  pairs := m.pairs.filter fun p => p.1 ≠ u
  inside p hp := by
    obtain ⟨hp, hu⟩ := Finset.mem_filter.1 hp
    exact ⟨h _ (m.inside p hp).1 hu, (m.inside p hp).2⟩
  one_to_one p hp q hq :=
    m.one_to_one p (Finset.mem_filter.1 hp).1 q (Finset.mem_filter.1 hq).1

/-- At most one pair belongs to a node. -/
theorem sum_at_le (m : Matching G K) (u k : ℕ) :
    ∑ p ∈ m.pairs, (if u = p.1 then k else 0) ≤ k := by
  have h : ∑ p ∈ m.pairs, (if u = p.1 then k else 0) =
      ∑ v ∈ m.domain, (if u = v then k else 0) := by
    rw [domain, Finset.sum_image m.injOn_fst]
  rw [h, Finset.sum_ite_eq m.domain u]
  split <;> omega

/-- At most one ordered pair of pairs belongs to two nodes. -/
theorem sum_at_at_le (m : Matching G K) (u w k : ℕ) :
    ∑ p ∈ m.pairs, ∑ q ∈ m.pairs, (if u = p.1 ∧ w = q.1 then k else 0) ≤ k := by
  have h : ∀ p ∈ m.pairs, ∑ q ∈ m.pairs, (if u = p.1 ∧ w = q.1 then k else 0) ≤
      if u = p.1 then k else 0 := by
    intro p _
    by_cases hp : u = p.1
    · simpa [hp] using m.sum_at_le w k
    · simp [hp]
  exact (Finset.sum_le_sum h).trans (m.sum_at_le u k)

/-- Savings compare pair by pair: where the labels of one node and the edges of one ordered pair of
nodes save a little more, the whole saves no more than that more. -/
theorem savingOf_le (m : Matching G' K) (u k s t j : ℕ)
    (hnode : ∀ p ∈ m.pairs, nodeSaving G' K p ≤ nodeSaving G K p + if u = p.1 then k else 0)
    (hedge : ∀ p ∈ m.pairs, ∀ q ∈ m.pairs, edgeSaving G' K p q ≤
      edgeSaving G K p q + if s = p.1 ∧ t = q.1 then j else 0) :
    savingOf G' K m.pairs ≤ savingOf G K m.pairs + k + j := by
  have hn := (Finset.sum_le_sum hnode).trans_eq Finset.sum_add_distrib
  have he := Finset.sum_le_sum fun p hp =>
    (Finset.sum_le_sum (hedge p hp)).trans_eq Finset.sum_add_distrib
  have hn' := m.sum_at_le u k
  have he' := m.sum_at_at_le s t j
  rw [Finset.sum_add_distrib] at he
  unfold savingOf
  omega

/-- Pairs whose nodes and edges save the same save the same together. -/
theorem savingOf_congr {P : Finset (ℕ × ℕ)}
    (hnode : ∀ p ∈ P, nodeSaving G' K p = nodeSaving G K p)
    (hedge : ∀ p ∈ P, ∀ q ∈ P, edgeSaving G' K p q = edgeSaving G K p q) :
    savingOf G' K P = savingOf G K P := by
  unfold savingOf
  rw [Finset.sum_congr rfl hnode,
    Finset.sum_congr rfl fun p hp => Finset.sum_congr rfl (hedge p hp)]

/-- A node without edges saves by its label alone. -/
theorem savingOf_insert {P : Finset (ℕ × ℕ)} {u v : ℕ} (hu : G.Isolated u) (h : (u, v) ∉ P) :
    savingOf G K (insert (u, v) P) = nodeSaving G K (u, v) + savingOf G K P := by
  unfold savingOf
  simp only [Finset.sum_insert h, edgeSaving, hu.between_left, hu.between_right, saving_zero_left,
    Finset.sum_const_zero, zero_add]
  omega

/-- An inserted node changes nothing for the pairs of other nodes. -/
theorem savingOf_insertNode {P : Finset (ℕ × ℕ)} {u : ℕ} (l : String) (h : ∀ p ∈ P, p.1 ≠ u) :
    savingOf (G.insertNode u l) K P = savingOf G K P := by
  refine savingOf_congr (fun p hp => ?_) fun p _ q _ => rfl
  simp only [nodeSaving, Shape.insertNode, Function.update_of_ne (h p hp)]

theorem nodeSaving_le (p : ℕ × ℕ) : nodeSaving G K p ≤ 2 := by
  unfold nodeSaving
  split <;> omega

theorem one_le_nodeSaving (p : ℕ × ℕ) : 1 ≤ nodeSaving G K p := by
  unfold nodeSaving
  split <;> omega

end Matching

/-! ## The distance before and after an edit -/

namespace Shape

open Matching

variable {G G' K : Shape}

/-- A matching after an edit and one before it compare by sizes and savings. -/
theorem distance_le_succ (m : Matching G' K) (m' : Matching G K)
    (h : G.size + savingOf G' K m.pairs ≤ G'.size + savingOf G K m'.pairs + 1) :
    G.distance K ≤ m.cost + 1 := by
  have hcost := m.cost_add_saving
  have hcost' := m'.cost_add_saving
  have hle := distance_le m'
  omega

theorem distance_le_of_insertNode {u : ℕ} {l : String} (hu : u ∉ G.nodes)
    (m : Matching (G.insertNode u l) K) : G.distance K ≤ m.cost + 1 := by
  have hsub : ∀ v ∈ (G.insertNode u l).nodes, v ≠ u → v ∈ G.nodes := fun v hv hne =>
    Finset.mem_of_mem_insert_of_ne hv hne
  refine distance_le_succ m (m.drop u hsub) ?_
  have hsize := size_insertNode (l := l) hu
  have hdrop : savingOf (G.insertNode u l) K (m.drop u hsub).pairs =
      savingOf G K (m.drop u hsub).pairs :=
    savingOf_insertNode l fun p hp => (Finset.mem_filter.1 hp).2
  -- the inserted node has no edges, so its pair saves two at most
  have hle : savingOf (G.insertNode u l) K m.pairs ≤
      savingOf (G.insertNode u l) K (m.drop u hsub).pairs + 2 := by
    by_cases hex : ∃ v, (u, v) ∈ m.pairs
    · obtain ⟨v, hv⟩ := hex
      have hpairs : m.pairs = insert (u, v) (m.drop u hsub).pairs := by
        ext p
        have hp : p ∈ m.pairs → p.1 = u → p = (u, v) := fun hp hpu =>
          m.injOn_fst hp hv hpu
        simp only [drop, Finset.mem_insert, Finset.mem_filter]
        constructor
        · intro h
          by_cases hpu : p.1 = u
          · exact .inl (hp h hpu)
          · exact .inr ⟨h, hpu⟩
        · rintro (rfl | h)
          · exact hv
          · exact h.1
      have hiso : (G.insertNode u l).Isolated u := isolated_of_notMem (G := G) hu
      have hnot : (u, v) ∉ (m.drop u hsub).pairs := fun h => (Finset.mem_filter.1 h).2 rfl
      have hins := savingOf_insert (K := K) hiso hnot
      have htwo := nodeSaving_le (G := G.insertNode u l) (K := K) (u, v)
      rw [← hpairs] at hins
      omega
    · have hpairs : (m.drop u hsub).pairs = m.pairs := by
        refine Finset.filter_true_of_mem fun p hp hpu => hex ⟨p.2, ?_⟩
        have hpair : (u, p.2) = p := Prod.ext hpu.symm rfl
        rwa [hpair]
      rw [hpairs]
      omega
  omega

theorem distance_le_of_deleteNode {u : ℕ} (h : G.Isolated u) (hu : u ∈ G.nodes)
    (m : Matching (G.deleteNode u h) K) : G.distance K ≤ m.cost + 1 := by
  refine distance_le_succ m (m.transfer fun p hp => Finset.mem_of_mem_erase (m.inside p hp).1) ?_
  have hsize := size_deleteNode h hu
  have hsame : savingOf (G.deleteNode u h) K m.pairs = savingOf G K m.pairs := rfl
  simp only [transfer]
  omega

theorem distance_le_of_relabelNode {u : ℕ} {l : String} (m : Matching (G.relabelNode u l) K) :
    G.distance K ≤ m.cost + 1 := by
  refine distance_le_succ m (m.transfer fun p hp => (m.inside p hp).1) ?_
  have hle := m.savingOf_le (G := G) u 1 0 0 0 (fun p _ => ?_) fun p _ q _ => Nat.le_add_right _ _
  · have hsize : (G.relabelNode u l).size = G.size := rfl
    simp only [transfer]
    omega
  · by_cases hp : u = p.1
    · have h₁ := nodeSaving_le (G := G.relabelNode u l) (K := K) p
      have h₂ := one_le_nodeSaving (G := G) (K := K) p
      rw [if_pos hp]
      omega
    · simp [nodeSaving, relabelNode, Function.update_of_ne (Ne.symm hp), hp]

theorem distance_le_of_insertEdge {e : Link} (h : e.1 ∈ G.nodes ∧ e.2.1 ∈ G.nodes)
    (m : Matching (G.insertEdge e h) K) : G.distance K ≤ m.cost + 1 := by
  refine distance_le_succ m (m.transfer fun p hp => (m.inside p hp).1) ?_
  have hle := m.savingOf_le (G := G) 0 0 e.1 e.2.1 2 (fun p _ => Nat.le_add_right _ _)
    fun p _ q _ => ?_
  · have hsize := size_insertEdge e h
    simp only [transfer]
    omega
  · simp only [edgeSaving, between_insertEdge, linkLabel]
    split
    · exact saving_cons_le _ _ _
    · simp

theorem distance_le_of_deleteEdge {e : Link} (h : e ∈ G.edges)
    (m : Matching (G.deleteEdge e) K) : G.distance K ≤ m.cost + 1 := by
  refine distance_le_succ m (m.transfer fun p hp => (m.inside p hp).1) ?_
  have hle := m.savingOf_le (G := G) 0 0 0 0 0 (fun p _ => Nat.le_add_right _ _)
    fun p _ q _ => ?_
  · have hsize := size_deleteEdge h
    simp only [transfer]
    omega
  · refine Nat.le_add_right_of_le ?_
    simp only [edgeSaving, between_deleteEdge h p.1 q.1, linkLabel]
    split
    · exact saving_le_cons _ _ _
    · simp

theorem distance_le_of_relabelEdge {e : Link} {l : String} (h : e ∈ G.edges)
    (m : Matching (G.relabelEdge e l h) K) : G.distance K ≤ m.cost + 1 := by
  refine distance_le_succ m (m.transfer fun p hp => (m.inside p hp).1) ?_
  have hle := m.savingOf_le (G := G) 0 0 e.1 e.2.1 1 (fun p _ => Nat.le_add_right _ _)
    fun p _ q _ => ?_
  · have hsize := size_relabelEdge l h
    simp only [transfer]
    omega
  · simp only [edgeSaving, between_relabelEdge h, between_deleteEdge h p.1 q.1, linkLabel]
    split
    · exact saving_relabel_le _ _ _ _
    · simp

/-- **One edit changes the distance to a third shape by at most one.** -/
theorem distance_le_of_perform {s : Edit} (h : G.perform? s = some G') :
    G.distance K ≤ G'.distance K + 1 := by
  obtain ⟨m, hm⟩ := exists_cost_eq_distance G' K
  rw [← hm]
  cases s with
  | insertNode u l =>
    simp only [perform?, Option.ite_none_left_eq_some, Option.some.injEq] at h
    obtain ⟨hu, rfl⟩ := h
    exact distance_le_of_insertNode hu m
  | deleteNode u =>
    simp only [perform?] at h
    split at h <;> rename_i hiso
    · split at h <;> rename_i hu
      · cases h
        exact distance_le_of_deleteNode hiso hu m
      · cases h
    · cases h
  | relabelNode u l =>
    simp only [perform?, Option.ite_none_right_eq_some, Option.some.injEq] at h
    obtain ⟨-, rfl⟩ := h
    exact distance_le_of_relabelNode m
  | insertEdge e =>
    simp only [perform?] at h
    split at h <;> rename_i he
    · cases h
      exact distance_le_of_insertEdge he m
    · cases h
  | deleteEdge e =>
    simp only [perform?, Option.ite_none_right_eq_some, Option.some.injEq] at h
    obtain ⟨he, rfl⟩ := h
    exact distance_le_of_deleteEdge he m
  | relabelEdge e l =>
    simp only [perform?] at h
    split at h <;> rename_i he
    · cases h
      exact distance_le_of_relabelEdge he m
    · cases h

end Shape

end GraphCompare
