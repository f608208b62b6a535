import Mathlib
import GraphCompare.Proofs.Edit.Charge

/-!
# Assignments of all nodes

An assignment is `Complete` if it maps or deletes every node of the first graph once and sends no
two to one node of the second. `total` is what the search pays for it in the end: what it has
charged, and what is left over in the second graph.

Complete assignments and partial injections are the same thing in two notations. The matching of a
complete assignment costs its total (`Complete.total_eq_cost`), and every matching is that of a
complete assignment in any given order of the nodes (`exists_complete`). So the totals do not depend
on the order, and the least of them is the distance of the two shapes.

`charged_add_lowerBound_le` says that the estimate of the search is admissible: the labels still
open on one side have to become the labels still unused on the other, and whatever completes the
assignment pays for that in parts.
-/

namespace GraphCompare.Edit

/-! ## Sources and targets -/

namespace Assignment

/-- The nodes that have been mapped or deleted, in this order. -/
def sources (a : Assignment) : List ℕ := a.map Prod.fst

/-- The nodes that some node goes to. -/
def targets (a : Assignment) : List ℕ := a.filterMap Prod.snd

/-- The mapped nodes with their images. -/
def pairs (a : Assignment) : List (ℕ × ℕ) := a.filterMap fun e => e.2.map fun v => (e.1, v)

@[simp] theorem sources_append (a c : Assignment) : sources (a ++ c) = sources a ++ sources c :=
  List.map_append

@[simp] theorem targets_append (a c : Assignment) : targets (a ++ c) = targets a ++ targets c :=
  List.filterMap_append

theorem covers_iff {a : Assignment} {u : ℕ} : a.covers u = true ↔ u ∈ a.sources := by
  simp [covers, sources]

theorem uses_iff {a : Assignment} {v : ℕ} : a.uses v = true ↔ v ∈ a.targets := by
  simp only [uses, List.any_eq_true, beq_iff_eq, targets, List.mem_filterMap]

theorem mem_pairs {a : Assignment} {p : ℕ × ℕ} : p ∈ a.pairs ↔ (p.1, some p.2) ∈ a := by
  simp only [pairs, List.mem_filterMap, Option.map_eq_some_iff]
  constructor
  · rintro ⟨⟨u, t⟩, he, v, rfl, rfl⟩
    exact he
  · intro h
    exact ⟨_, h, p.2, rfl, rfl⟩

/-- Every mapped node comes with its image. -/
theorem map_snd_pairs (a : Assignment) : a.pairs.map Prod.snd = a.targets := by
  rw [pairs, List.map_filterMap, targets]
  refine congrArg (List.filterMap · a) (funext fun e => ?_)
  simp [Option.map_map, Function.comp_def]

theorem map_fst_pairs_sublist (a : Assignment) : (a.pairs.map Prod.fst).Sublist a.sources := by
  induction a with
  | nil => exact .slnil
  | cons e a ih =>
    obtain ⟨u, _ | v⟩ := e
    · exact ih.cons u
    · exact ih.cons_cons u

/-- A list of labels is the sum of its members. -/
theorem coe_map_eq_sum {α : Type*} (f : α → String) (l : List α) :
    ((l.map f : List String) : Multiset String) =
      (l.map fun x => ({f x} : Multiset String)).sum := by
  induction l with
  | nil => rfl
  | cons x l ih => rw [List.map_cons, List.map_cons, List.sum_cons, ← ih]; rfl

/-- A sum over an assignment to which deleted nodes add nothing runs over the mapped pairs. -/
theorem sum_pairs {M : Type*} [AddCommMonoid M] (f : ℕ × Target → M) (hf : ∀ u, f (u, none) = 0)
    (a : Assignment) : (a.map f).sum = (a.pairs.map fun p => f (p.1, some p.2)).sum := by
  induction a with
  | nil => rfl
  | cons e a ih =>
    obtain ⟨u, _ | v⟩ := e
    · rw [List.map_cons, List.sum_cons, ih, hf, zero_add]
      rfl
    · rw [List.map_cons, List.sum_cons, ih]
      rfl

/-- A sum over the targets of an assignment, where a missing target adds nothing. -/
theorem sum_targets {M : Type*} [AddCommMonoid M] (f : Target → M) (hf : f none = 0)
    (a : Assignment) : (a.map fun e => f e.2).sum = (a.targets.map fun v => f (some v)).sum := by
  rw [sum_pairs (fun e => f e.2) (fun _ => hf), ← map_snd_pairs, List.map_map]
  rfl

/-- A sum over pairs to which deleted nodes add nothing runs over the mapped pairs. -/
theorem pairSum_pairs {M : Type*} [AddCommMonoid M] (f : ℕ × Target → ℕ × Target → M)
    (hf : ∀ u e, f (u, none) e = 0) (hf' : ∀ e u, f e (u, none) = 0) (a c : Assignment) :
    pairSum f a c = pairSum (fun p q => f (p.1, some p.2) (q.1, some q.2)) a.pairs c.pairs := by
  unfold pairSum
  simp only [sum_pairs (f _) (hf' _) c]
  exact sum_pairs (fun e => (c.pairs.map fun q => f e (q.1, some q.2)).sum) (by simp [hf]) a

end Assignment

open Assignment (sources targets)

section Complete

variable (A B : Graph)

/-- Every node of the first graph goes somewhere, once, and no two go to one node. -/
structure Complete (b : Assignment) : Prop where
  sources_perm : b.sources.Perm (List.range A.nodeCount)
  targets_nodup : b.targets.Nodup
  targets_lt : ∀ v ∈ b.targets, v < B.nodeCount

/-- What a complete assignment costs the search. -/
def total (b : Assignment) : ℕ :=
  charged A.shape B.shape b + (Problem.ofGraphs A B).completionCost b

end Complete

variable {A B : Graph} {a b c : Assignment}

theorem Complete.sources_nodup (h : Complete A B b) : b.sources.Nodup :=
  h.sources_perm.nodup_iff.2 List.nodup_range

/-- All nodes of the first graph are covered. -/
theorem Complete.sources_toFinset (h : Complete A B b) : b.sources.toFinset = A.shape.nodes := by
  ext u
  simp [h.sources_perm.mem_iff, Graph.shape]

/-! ## What is open and what is unused -/

/-- The edges that a search filters out by a test of their ends are those beyond the nodes that pass
the test. -/
theorem coe_edgesBeyond (g : Graph) {S : List ℕ} {q : ℕ → Bool} (hq : ∀ u, q u = true ↔ u ∈ S) :
    ((((Profile.ofGraph g).edges.filter fun e => !q e.1 || !q e.2.1).map (·.2.2) : List String) :
      Multiset String) = (g.shape.edgesBeyond S.toFinset).map fun e => e.2.2 := by
  have hp : ((Profile.ofGraph g).edges.filter fun e => !q e.1 || !q e.2.1) =
      (Profile.ofGraph g).edges.filter
        fun e => decide ¬(e.1 ∈ S.toFinset ∧ e.2.1 ∈ S.toFinset) := by
    refine List.filter_congr fun e _ => ?_
    rw [Bool.eq_iff_iff, decide_eq_true_iff, List.mem_toFinset, List.mem_toFinset, ← hq, ← hq]
    cases q e.1 <;> cases q e.2.1 <;> simp
  rw [hp]
  rfl

/-- The open edges of the first graph are those beyond the nodes covered. -/
theorem coe_openEdgeLabels (a : Assignment) :
    ((Problem.ofGraphs A B).openEdgeLabels a : Multiset String) =
      (A.shape.edgesBeyond a.sources.toFinset).map fun e => e.2.2 :=
  coe_edgesBeyond A fun _ => Assignment.covers_iff

/-- The unused edges of the second graph are those beyond the targets. -/
theorem coe_unusedEdgeLabels (a : Assignment) :
    ((Problem.ofGraphs A B).unusedEdgeLabels a : Multiset String) =
      (B.shape.edgesBeyond a.targets.toFinset).map fun e => e.2.2 :=
  coe_edgesBeyond B fun _ => Assignment.uses_iff

theorem mem_unused {v : ℕ} :
    v ∈ (Problem.ofGraphs A B).unused a ↔ v < B.nodeCount ∧ v ∉ a.targets := by
  simp only [Problem.unused, List.mem_filter, List.mem_range, Problem.ofGraphs,
    Profile.size_ofGraph, Bool.not_eq_true', ← Bool.not_eq_true, Assignment.uses_iff]

theorem nodup_unused (a : Assignment) : ((Problem.ofGraphs A B).unused a).Nodup :=
  List.nodup_range.filter _

/-- The nodes still to be mapped are those of the rest of the assignment. -/
theorem Complete.open_perm (h : Complete A B (a ++ c)) :
    ((List.range A.nodeCount).filter fun u => !a.covers u).Perm c.sources := by
  have hn := h.sources_nodup
  rw [Assignment.sources_append, List.nodup_append'] at hn
  refine (List.perm_ext_iff_of_nodup (List.nodup_range.filter _) hn.2.1).2 fun u => ?_
  have hmem := h.sources_perm.mem_iff (a := u)
  simp only [Assignment.sources_append, List.mem_append, List.mem_range] at hmem
  simp only [List.mem_filter, List.mem_range, ← hmem, Bool.not_eq_true',
    ← Bool.not_eq_true, Assignment.covers_iff]
  have := @hn.2.2 u
  tauto

/-- The nodes that are unused are taken by the rest of the assignment or stay unused. -/
theorem Complete.unused_perm (h : Complete A B (a ++ c)) :
    ((Problem.ofGraphs A B).unused a).Perm
      (c.targets ++ (Problem.ofGraphs A B).unused (a ++ c)) := by
  have hn := h.targets_nodup
  have hlt := h.targets_lt
  rw [Assignment.targets_append] at hn hlt
  obtain ⟨-, hc, hd⟩ := List.nodup_append'.1 hn
  have hcu : c.targets.Disjoint ((Problem.ofGraphs A B).unused (a ++ c)) := by
    intro v hv hv'
    rw [mem_unused, Assignment.targets_append] at hv'
    exact hv'.2 (List.mem_append_right _ hv)
  refine (List.perm_ext_iff_of_nodup (nodup_unused a)
    (List.nodup_append'.2 ⟨hc, nodup_unused _, hcu⟩)).2 fun v => ?_
  rw [List.mem_append, mem_unused, mem_unused, Assignment.targets_append, List.mem_append]
  have hv := hlt v
  rw [List.mem_append] at hv
  have := @hd v
  tauto

/-! ## The estimate is admissible -/

/-- The edges beyond some nodes have an end in more nodes, or are beyond those too. -/
theorem edgesBeyond_append (G : Shape) {S T : List ℕ} (h : (S ++ T).Nodup) :
    ((G.edgesBeyond S.toFinset).map fun e => e.2.2) =
      pairSum G.between S T + pairSum G.between T (S ++ T) +
        (G.edgesBeyond (S ++ T).toFinset).map fun e => e.2.2 := by
  have hsplit : ∀ {S : List ℕ}, S.Nodup → pairSum G.between S S +
      ((G.edgesBeyond S.toFinset).map fun e => e.2.2) = G.edges.map fun e => e.2.2 := by
    intro S hS
    rw [pairSum_eq_sum_toFinset _ hS, G.sum_between, ← Multiset.map_add,
      G.edgesWithin_add_edgesBeyond]
  have h' := (hsplit (List.nodup_append'.1 h).1).trans (hsplit h).symm
  rw [pairSum_append_self, add_assoc] at h'
  exact add_left_cancel h'

theorem pairSum_sources (G : Shape) (a c : Assignment) :
    pairSum G.between a.sources c.sources = pairSum (fun e f => G.between e.1 f.1) a c := by
  simp [pairSum, sources, Function.comp_def]

theorem pairSum_targets (H : Shape) (a c : Assignment) :
    pairSum H.between a.targets c.targets = pairSum (fun e f => edgesReached H e.2 f.2) a c := by
  unfold pairSum
  rw [Assignment.sum_targets (fun t => (c.map fun f => edgesReached H t f.2).sum)]
  · refine congrArg List.sum (List.map_congr_left fun v _ => ?_)
    exact (Assignment.sum_targets (edgesReached H (some v)) rfl c).symm
  · simp [edgesReached]

/-- The open labels of the nodes cost no more than mapping these nodes and adding what is left. -/
theorem Complete.changes_openLabels_le (h : Complete A B (a ++ c)) :
    changes ((Problem.ofGraphs A B).openLabels a)
        (((Problem.ofGraphs A B).unused a).map (Problem.ofGraphs A B).second.label) ≤
      (c.map (nodeCharge A.shape B.shape)).sum +
        ((Problem.ofGraphs A B).unused (a ++ c)).length := by
  have hopen : ((Problem.ofGraphs A B).openLabels a : Multiset String) =
      (c.map fun e => ({A.shape.label e.1} : Multiset String)).sum + 0 := by
    have hp : ((Problem.ofGraphs A B).openLabels a).Perm
        (c.map fun e => A.shape.label e.1) := by
      simpa [Problem.openLabels, Problem.ofGraphs, sources, Function.comp_def] using
        h.open_perm.map A.shape.label
    rw [add_zero, ← Assignment.coe_map_eq_sum, Multiset.coe_eq_coe.2 hp]
  have hunused : ((((Problem.ofGraphs A B).unused a).map
      (Problem.ofGraphs A B).second.label : List String) : Multiset String) =
      (c.map fun e => labelReached B.shape e.2).sum +
        (((Problem.ofGraphs A B).unused (a ++ c)).map B.shape.label : List String) := by
    have hlabel : (Problem.ofGraphs A B).second.label = B.shape.label := Profile.label_ofGraph B
    rw [hlabel, Multiset.coe_eq_coe.2 (h.unused_perm.map B.shape.label), List.map_append,
      ← Multiset.coe_add, Assignment.coe_map_eq_sum,
      Assignment.sum_targets (labelReached B.shape) rfl]
    rfl
  rw [hopen, hunused]
  refine (changes_add_le _ _ _ _).trans (Nat.add_le_add (changes_sum_le _ _ c) ?_)
  simp

/-- The open edges cost no more than the edges to the nodes still to be mapped and adding what is
left. -/
theorem Complete.changes_openEdgeLabels_le (h : Complete A B (a ++ c)) :
    changes ((Problem.ofGraphs A B).openEdgeLabels a)
        ((Problem.ofGraphs A B).unusedEdgeLabels a) ≤
      pairSum (edgeCharge A.shape B.shape) a c + pairSum (edgeCharge A.shape B.shape) c (a ++ c) +
        ((Problem.ofGraphs A B).unusedEdgeLabels (a ++ c)).length := by
  have hs := h.sources_nodup
  have ht := h.targets_nodup
  have hnone : A.shape.edgesBeyond (sources (a ++ c)).toFinset = 0 := by
    rw [h.sources_toFinset]
    exact Multiset.filter_eq_nil.2 fun e he hn => hn (A.shape.inside e he)
  rw [← Multiset.coe_card, coe_openEdgeLabels, coe_unusedEdgeLabels, coe_unusedEdgeLabels]
  rw [Assignment.sources_append] at hs hnone
  rw [Assignment.targets_append] at ht ⊢
  rw [edgesBeyond_append A.shape hs, edgesBeyond_append B.shape ht, hnone,
    ← Assignment.sources_append, ← Assignment.targets_append, pairSum_sources, pairSum_sources,
    pairSum_targets, pairSum_targets]
  refine (changes_add_le _ _ _ _).trans (Nat.add_le_add ?_ (by simp))
  exact (changes_add_le _ _ _ _).trans
    (Nat.add_le_add (changes_pairSum_le _ _ a c) (changes_pairSum_le _ _ c (a ++ c)))

/-- **The estimate is admissible.** What has been charged and the lower bound of the rest stay
below the total of every way to complete the assignment. -/
theorem Complete.charged_add_lowerBound_le (h : Complete A B (a ++ c)) :
    charged A.shape B.shape a + (Problem.ofGraphs A B).lowerBound a ≤ total A B (a ++ c) := by
  have hnodes := h.changes_openLabels_le
  have hedges := h.changes_openEdgeLabels_le
  rw [← multisetDistance_eq] at hnodes hedges
  simp only [total, charged, Problem.completionCost, Problem.lowerBound, pairSum_append_self,
    List.map_append, List.sum_append]
  omega

/-! ## Complete assignments as matchings -/

theorem Complete.nodup_pairs (h : Complete A B b) : b.pairs.Nodup := by
  have ht := h.targets_nodup
  rw [← Assignment.map_snd_pairs] at ht
  exact ht.of_map _

/-- The partial injection that a complete assignment writes down. -/
def Complete.matching (h : Complete A B b) : Matching A.shape B.shape where
  pairs := b.pairs.toFinset
  inside := by
    intro p hp
    rw [List.mem_toFinset] at hp
    have hs : p.1 ∈ b.sources := b.map_fst_pairs_sublist.subset (List.mem_map_of_mem hp)
    have ht : p.2 ∈ b.targets := b.map_snd_pairs ▸ List.mem_map_of_mem hp
    rw [h.sources_perm.mem_iff, List.mem_range] at hs
    exact ⟨Finset.mem_range.2 hs, Finset.mem_range.2 (h.targets_lt _ ht)⟩
  one_to_one := by
    intro p hp q hq
    rw [List.mem_toFinset] at hp hq
    have hs := h.sources_nodup.sublist b.map_fst_pairs_sublist
    have ht := h.targets_nodup
    rw [← Assignment.map_snd_pairs] at ht
    constructor
    · intro he
      rw [List.inj_on_of_nodup_map hs hp hq he]
    · intro he
      rw [List.inj_on_of_nodup_map ht hp hq he]

/-- The saving of a set of pairs, as sums over a list of them. -/
theorem savingOf_toFinset {G H : Shape} {l : List (ℕ × ℕ)} (h : l.Nodup) :
    Matching.savingOf G H l.toFinset =
      (l.map (Matching.nodeSaving G H)).sum + pairSum (Matching.edgeSaving G H) l l := by
  rw [Matching.savingOf, List.sum_toFinset _ h, pairSum_eq_sum_toFinset _ h]

/-- Charges and savings of an assignment add up to the labels on both sides. -/
theorem charged_add_saving (G H : Shape) (b : Assignment) :
    charged G H b + ((b.pairs.map (Matching.nodeSaving G H)).sum +
        pairSum (Matching.edgeSaving G H) b.pairs b.pairs) =
      b.length + b.targets.length + ((pairSum G.between b.sources b.sources).card +
        (pairSum H.between b.targets b.targets).card) := by
  have hnode : (b.pairs.map (Matching.nodeSaving G H)).sum =
      (b.map fun e => saving {G.label e.1} (labelReached H e.2)).sum := by
    rw [Assignment.sum_pairs _ (by simp [labelReached])]
    simp only [labelReached, ← Matching.nodeSaving_eq]
  have hedge : pairSum (Matching.edgeSaving G H) b.pairs b.pairs =
      pairSum (fun e f => saving (G.between e.1 f.1) (edgesReached H e.2 f.2)) b b := by
    rw [Assignment.pairSum_pairs _ (by simp [edgesReached]) (by simp [edgesReached_none_right])]
    rfl
  have hlabels : (b.map fun e => (labelReached H e.2).card).sum = b.targets.length := by
    rw [Assignment.sum_targets (fun t => (labelReached H t).card) rfl]
    simp [labelReached]
  have hsum : (b.map fun e => nodeCharge G H e +
      saving {G.label e.1} (labelReached H e.2)).sum = b.length + b.targets.length := by
    simp only [nodeCharge, changes_add_saving, List.sum_map_add, hlabels]
    simp
  have hpair : pairSum (fun e f => edgeCharge G H e f +
      saving (G.between e.1 f.1) (edgesReached H e.2 f.2)) b b =
        (pairSum G.between b.sources b.sources).card +
          (pairSum H.between b.targets b.targets).card := by
    simp only [edgeCharge, changes_add_saving, pairSum_add, pairSum_sources, pairSum_targets,
      card_pairSum]
  rw [List.sum_map_add, ← hnode] at hsum
  rw [pairSum_add, ← hedge] at hpair
  unfold charged
  omega

/-- **The total of a complete assignment is the cost of its matching.** -/
theorem Complete.total_eq_cost (h : Complete A B b) : total A B b = h.matching.cost := by
  have hcost := h.matching.cost_add_saving
  have hsaving := charged_add_saving A.shape B.shape b
  have hlen : b.length = A.nodeCount := by
    simpa [sources] using h.sources_perm.length_eq
  have hunused : B.nodeCount = b.targets.length + ((Problem.ofGraphs A B).unused b).length := by
    have hp := (Complete.unused_perm (a := []) h).length_eq
    simpa [Problem.unused, Assignment.uses, Problem.ofGraphs] using hp
  have hE := congrArg Multiset.card (B.shape.edgesWithin_add_edgesBeyond b.targets.toFinset)
  rw [Multiset.card_add] at hE
  have hbeyond := congrArg Multiset.card (coe_unusedEdgeLabels (A := A) (B := B) b)
  rw [Multiset.coe_card, Multiset.card_map] at hbeyond
  rw [pairSum_eq_sum_toFinset _ h.sources_nodup, pairSum_eq_sum_toFinset _ h.targets_nodup,
    Shape.sum_between, Shape.sum_between, Multiset.card_map, Multiset.card_map,
    h.sources_toFinset, Shape.edgesWithin_nodes] at hsaving
  have hpairs : h.matching.pairs = b.pairs.toFinset := rfl
  rw [hpairs, savingOf_toFinset h.nodup_pairs] at hcost
  have hnA : A.shape.nodes.card = A.nodeCount := Finset.card_range _
  have hnB : B.shape.nodes.card = B.nodeCount := Finset.card_range _
  unfold total Problem.completionCost
  unfold Shape.size at hcost
  omega

/-- Where a partial injection sends a node. -/
noncomputable def imageOf {G H : Shape} (m : Matching G H) (u : ℕ) : Target :=
  open Classical in if h : ∃ v, (u, v) ∈ m.pairs then some h.choose else none

theorem imageOf_eq_some {G H : Shape} {m : Matching G H} {u v : ℕ} :
    imageOf m u = some v ↔ (u, v) ∈ m.pairs := by
  unfold imageOf
  constructor
  · intro h
    split at h
    · rename_i hex
      cases h
      exact hex.choose_spec
    · cases h
  · intro h
    have hex : ∃ v, (u, v) ∈ m.pairs := ⟨v, h⟩
    rw [dif_pos hex]
    exact congrArg some ((m.one_to_one _ hex.choose_spec _ h).1 rfl)

/-- **Every partial injection is that of a complete assignment**, in any order of the nodes. -/
theorem exists_complete (m : Matching A.shape B.shape) {order : List ℕ}
    (horder : order.Perm (List.range A.nodeCount)) :
    ∃ b, ∃ h : Complete A B b, b.sources = order ∧ h.matching = m := by
  have hsources : sources (order.map fun u => (u, imageOf m u)) = order := by
    simp [sources, Function.comp_def]
  have hmem : ∀ {v}, v ∈ targets (order.map fun u => (u, imageOf m u)) →
      ∃ u ∈ order, (u, v) ∈ m.pairs := by
    intro v hv
    simpa [targets, imageOf_eq_some] using hv
  have hnodup : (targets (order.map fun u => (u, imageOf m u))).Nodup := by
    rw [targets, List.filterMap_map]
    refine (horder.nodup_iff.2 List.nodup_range).filterMap fun u w v hu hw => ?_
    have hu' : (u, v) ∈ m.pairs := imageOf_eq_some.1 hu
    have hw' : (w, v) ∈ m.pairs := imageOf_eq_some.1 hw
    exact (m.one_to_one _ hu' _ hw').2 rfl
  have h : Complete A B (order.map fun u => (u, imageOf m u)) := by
    refine ⟨hsources.symm ▸ horder, hnodup, fun v hv => ?_⟩
    obtain ⟨u, -, hp⟩ := hmem hv
    exact Finset.mem_range.1 (m.inside _ hp).2
  refine ⟨_, h, hsources, ?_⟩
  have hpairs : h.matching.pairs = m.pairs := by
    ext p
    have hp : p ∈ m.pairs → p.1 ∈ order := fun hp =>
      horder.mem_iff.2 (List.mem_range.2 (Finset.mem_range.1 (m.inside _ hp).1))
    simp only [Complete.matching, List.mem_toFinset, Assignment.mem_pairs, List.mem_map,
      Prod.mk.injEq, imageOf_eq_some]
    constructor
    · rintro ⟨u, -, rfl, hu⟩
      exact hu
    · exact fun hp' => ⟨p.1, hp hp', rfl, hp'⟩
  cases hm : h.matching
  cases m
  simp_all

end GraphCompare.Edit
