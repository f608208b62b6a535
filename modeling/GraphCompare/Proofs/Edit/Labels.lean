import Mathlib
import GraphCompare.Proofs.Edit.Operation
import GraphCompare.Proofs.Hash.Histogram

/-!
# Lists of labels and their matchings

`multisetDistance` is a closed form, the length of the longer list less the number of labels in
common. What it stands for is a matching: positions of the one list are paired one to one with
positions of the other, a pair of different labels is one change, and so is a position that is left
over. No matching costs less (`Matching.changes_labels_le_labelCost`), and some matching costs no
more (`Matching.isLeast_labelCost`). The first holds because savings add up. The second is by
induction on the positions of the one list: each is left over, or it is paired with a position of
the other list that the rest has no use for (`saving_cons_cases`).

The number of labels in common may be counted in one pass over the second list, against a histogram
of the first from which every label that is found is taken out. The invariant is the multiset that
the histogram still holds (`Histogram.Holds`); it makes the count the size of the intersection, in
whatever order the labels come (`Histogram.found_ofLabels`).
-/

namespace GraphCompare

/-! ## Counting in one pass -/

namespace Histogram

/-- A label against what is left in a histogram and the number of labels found so far: where one is
left, it is taken out and counted. -/
def take (s : Histogram × ℕ) (l : String) : Histogram × ℕ :=
  match SortedMap.get? s.1 l with
  | some (n + 1) => (SortedMap.insert s.1 l n, s.2 + 1)
  | _ => s

/-- How many labels of a list are found in a histogram, in one pass that takes out what it finds. -/
def found (h : Histogram) (labels : List String) : ℕ := (labels.foldl take (h, 0)).2

/-- A histogram holds a multiset if every label is left as often as the multiset has it. -/
def Holds (h : Histogram) (s : Multiset String) : Prop := ∀ x, (h.get? x).getD 0 = s.count x

theorem holds_ofLabels (labels : List String) : Holds (ofLabels labels) labels := by
  intro x
  rw [get?_ofLabels, Multiset.coe_count]
  split
  case isTrue => rfl
  case isFalse hx => exact (List.count_eq_zero_of_not_mem hx).symm

/-- A label that is held is taken out and counted, and any other changes nothing. -/
theorem Holds.take {h : Histogram} {s : Multiset String} (hs : Holds h s) (n : ℕ) (l : String) :
    Holds (Histogram.take (h, n) l).1 (s.erase l) ∧
      (Histogram.take (h, n) l).2 = n + if l ∈ s then 1 else 0 := by
  have left := hs l
  rw [Histogram.take]
  split
  case h_1 k hk =>
    simp only [hk, Option.getD_some] at left
    have hl : l ∈ s := Multiset.count_pos.1 (by omega)
    refine ⟨fun x => ?_, by rw [if_pos hl]⟩
    rw [SortedMap.get?_insert]
    by_cases hx : x = l
    · subst hx
      simp only [beq_self_eq_true, if_true, Option.getD_some, Multiset.count_erase_self]
      omega
    · rw [if_neg (by simpa using hx), Multiset.count_erase_of_ne hx]
      exact hs x
  case h_2 hk =>
    have hl : l ∉ s := by
      rw [← Multiset.count_eq_zero, ← left]
      cases hget : h.get? l with
      | none => rfl
      | some k =>
        cases k with
        | zero => rfl
        | succ k => exact absurd hget (hk k)
    exact ⟨by rwa [Multiset.erase_of_notMem hl], by rw [if_neg hl, Nat.add_zero]⟩

/-- A pass counts the labels that are held, each as often as both sides have it. -/
theorem Holds.foldl {h : Histogram} {s : Multiset String} (hs : Holds h s) (n : ℕ)
    (labels : List String) :
    (labels.foldl Histogram.take (h, n)).2 = n + (s ∩ labels).card := by
  induction labels generalizing h s n with
  | nil => simp
  | cons l labels ih =>
    obtain ⟨hleft, hcount⟩ := hs.take n l
    rw [List.foldl_cons, ih hleft, hcount, ← Multiset.cons_coe, Multiset.inter_comm s]
    split
    case isTrue hl =>
      rw [Multiset.cons_inter_of_pos _ hl, Multiset.card_cons, Multiset.inter_comm]
      omega
    case isFalse hl =>
      rw [Multiset.cons_inter_of_neg _ hl, Multiset.erase_of_notMem hl, Multiset.inter_comm,
        Nat.add_zero]

/-- **One pass counts the labels in common**, whatever the order of the two lists is. -/
theorem found_ofLabels (xs ys : List String) : (ofLabels xs).found ys = commonCount xs ys := by
  rw [found, (holds_ofLabels xs).foldl, commonCount_eq, Nat.zero_add]

end Histogram

/-! ## Matchings of positions -/

namespace Shape

/-- Labelled nodes without edges. -/
def edgeless (nodes : Finset ℕ) (label : ℕ → String) : Shape where
  nodes := nodes
  label := label
  edges := 0
  inside := by simp

/-- A list of labels as a shape: the nodes are its positions. -/
def ofLabels (xs : List String) : Shape := edgeless (Finset.range xs.length) fun i => xs.getD i ""

/-- The labels of the nodes. -/
def labels (G : Shape) : Multiset String := G.nodes.val.map G.label

theorem labels_ofLabels (xs : List String) : (ofLabels xs).labels = xs := by
  have hmap : (List.range xs.length).map (fun i => xs.getD i "") = xs :=
    List.ext_getElem (by simp) fun i _ hi => by simp [hi]
  exact congrArg Multiset.ofList hmap

theorem card_labels (G : Shape) : G.labels.card = G.nodes.card := Multiset.card_map _ _

/-- The labels of nodes are those of a part of them and those of the others. -/
theorem labels_eq_add (G : Shape) {S : Finset ℕ} (h : S ⊆ G.nodes) :
    G.labels = ∑ u ∈ S, {G.label u} + ∑ u ∈ G.nodes \ S, {G.label u} := by
  rw [add_comm, Finset.sum_sdiff h, labels, ← Multiset.sum_map_singleton (G.nodes.val.map G.label),
    Multiset.map_map]
  rfl

theorem labels_edgeless_insert {S : Finset ℕ} {u : ℕ} (h : u ∉ S) (f : ℕ → String) :
    (edgeless (insert u S) f).labels = f u ::ₘ (edgeless S f).labels := by
  simp only [labels, edgeless, Finset.insert_val_of_notMem h, Multiset.map_cons]

theorem labels_edgeless_erase {T : Finset ℕ} {v : ℕ} (h : v ∈ T) (g : ℕ → String) :
    (edgeless (T.erase v) g).labels = (edgeless T g).labels.erase (g v) := by
  simp only [labels, edgeless, Finset.erase_val, Multiset.map_erase_of_mem g _ h]

end Shape

namespace Matching

open Shape (edgeless)

variable {G H : Shape}

/-- Pairs save no more one by one than their labels together. -/
theorem sum_nodeSaving_le (P : Finset (ℕ × ℕ)) :
    ∑ p ∈ P, nodeSaving G H p ≤
      saving (∑ p ∈ P, {G.label p.1}) (∑ p ∈ P, {H.label p.2}) := by
  induction P using Finset.induction_on with
  | empty => simp
  | insert p P hp ih =>
    rw [Finset.sum_insert hp, Finset.sum_insert hp, Finset.sum_insert hp, nodeSaving_eq]
    exact (Nat.add_le_add_left ih _).trans (saving_add_le _ _ _ _)

/-- **No matching costs less than the changes of the labels.** -/
theorem changes_labels_le_labelCost (m : Matching G H) :
    changes G.labels H.labels ≤ m.labelCost := by
  have hcost := m.labelCost_add_saving
  have hchanges := changes_add_saving G.labels H.labels
  have hsaving : ∑ p ∈ m.pairs, nodeSaving G H p ≤ saving G.labels H.labels := by
    have hpairs := sum_nodeSaving_le (G := G) (H := H) m.pairs
    rw [← Finset.sum_image (f := fun u => ({G.label u} : Multiset String)) m.injOn_fst,
      ← Finset.sum_image (f := fun v => ({H.label v} : Multiset String)) m.injOn_snd] at hpairs
    rw [G.labels_eq_add m.domain_subset, H.labels_eq_add m.range_subset]
    exact hpairs.trans ((Nat.le_add_right _ _).trans (saving_add_le _ _ _ _))
  rw [Shape.card_labels, Shape.card_labels] at hchanges
  omega

/-- Some matching saves all that the labels can save: node by node of the first side, each is left
over or matched with a node that the rest has no use for. -/
theorem exists_sum_nodeSaving_eq (S T : Finset ℕ) (f g : ℕ → String) :
    ∃ m : Matching (edgeless S f) (edgeless T g),
      ∑ p ∈ m.pairs, nodeSaving (edgeless S f) (edgeless T g) p =
        saving (edgeless S f).labels (edgeless T g).labels := by
  induction S using Finset.induction_on generalizing T with
  | empty =>
    have nothing : (edgeless ∅ f).labels = 0 := rfl
    exact ⟨.empty _ _, by rw [nothing, saving_zero_left, Matching.empty, Finset.sum_empty]⟩
  | insert u S hu ih =>
    rw [Shape.labels_edgeless_insert hu]
    rcases saving_cons_cases (f u) (edgeless S f).labels (edgeless T g).labels with
      hover | ⟨l, hl, hmatched⟩
    · obtain ⟨m, hm⟩ := ih T
      have inside : ∀ p ∈ m.pairs, p.1 ∈ (edgeless (insert u S) f).nodes := fun p hp =>
        Finset.mem_insert_of_mem (m.inside p hp).1
      exact ⟨m.transfer inside, hm.trans hover.symm⟩
    · obtain ⟨v, hv, rfl⟩ : ∃ v ∈ T, g v = l := Multiset.mem_map.1 hl
      obtain ⟨m, hm⟩ := ih (T.erase v)
      have hu' : u ∈ (edgeless (insert u S) f).nodes := Finset.mem_insert_self u S
      have hv' : v ∈ (edgeless T g).nodes := hv
      have first : ∀ p ∈ m.pairs, p.1 ∈ (edgeless (insert u S) f).nodes ∧ p.1 ≠ u := fun p hp =>
        ⟨Finset.mem_insert_of_mem (m.inside p hp).1, ne_of_mem_of_not_mem (m.inside p hp).1 hu⟩
      have second : ∀ p ∈ m.pairs, p.2 ∈ (edgeless T g).nodes ∧ p.2 ≠ v := fun p hp =>
        ⟨Finset.mem_of_mem_erase (m.inside p hp).2, Finset.ne_of_mem_erase (m.inside p hp).2⟩
      have hnew : (u, v) ∉ m.pairs := fun h => (first _ h).2 rfl
      rw [Shape.labels_edgeless_erase hv] at hm
      refine ⟨m.insertPair hu' hv' first second, ?_⟩
      rw [pairs_insertPair, Finset.sum_insert hnew, nodeSaving_eq, Nat.add_comm]
      exact (congrArg (· + _) hm).trans hmatched.symm

/-- **The changes of the labels are the least cost of a matching.** -/
theorem isLeast_labelCost (S T : Finset ℕ) (f g : ℕ → String) :
    IsLeast (Set.range (labelCost : Matching (edgeless S f) (edgeless T g) → ℕ))
      (changes (edgeless S f).labels (edgeless T g).labels) := by
  constructor
  · obtain ⟨m, hm⟩ := exists_sum_nodeSaving_eq S T f g
    refine ⟨m, ?_⟩
    have hcost := m.labelCost_add_saving
    have hchanges := changes_add_saving (edgeless S f).labels (edgeless T g).labels
    rw [Shape.card_labels, Shape.card_labels] at hchanges
    omega
  · rintro _ ⟨m, rfl⟩
    exact m.changes_labels_le_labelCost

end Matching

/-! ## The distance of lists of labels -/

/-- What a distance of lists of labels has to be: the least number of labels that are changed,
dropped or added when positions of the one are matched with positions of the other, and a metric on
lists up to their order. -/
structure IsMatchingMetric (d : List String → List String → ℕ) : Prop where
  isLeast : ∀ xs ys, IsLeast
    (Set.range (Matching.labelCost : Matching (.ofLabels xs) (.ofLabels ys) → ℕ)) (d xs ys)
  perm : ∀ {xs xs' ys ys' : List String}, xs.Perm xs' → ys.Perm ys' → d xs ys = d xs' ys'
  comm : ∀ xs ys, d xs ys = d ys xs
  eq_zero_iff : ∀ xs ys, d xs ys = 0 ↔ xs.Perm ys
  triangle : ∀ xs ys zs, d xs zs ≤ d xs ys + d ys zs

/-- The number of changes is such a distance. -/
theorem isMatchingMetric_changes :
    IsMatchingMetric fun xs ys : List String => changes xs ys where
  isLeast xs ys := by
    rw [← Shape.labels_ofLabels xs, ← Shape.labels_ofLabels ys]
    exact Matching.isLeast_labelCost _ _ _ _
  perm hxs hys := by rw [Multiset.coe_eq_coe.2 hxs, Multiset.coe_eq_coe.2 hys]
  comm xs ys := changes_comm xs ys
  eq_zero_iff xs ys := changes_eq_zero.trans Multiset.coe_eq_coe
  triangle xs ys zs := changes_triangle xs ys zs

/-- **The distance of label lists is the least cost of matching their positions, and a metric up to
their order.** So is the cost of the edges of a pair of nodes, with its shortcut for empty sides.
The labels in common are as many as one pass over the second list finds in a histogram of the first,
and they are never more than the longer list has, so nothing is cut off where they are taken away.
-/
theorem multisetDistance_isMatchingMetric :
    IsMatchingMetric multisetDistance ∧ pairCost = multisetDistance ∧
      ∀ xs ys, commonCount xs ys = (Histogram.ofLabels xs).found ys ∧
        commonCount xs ys ≤ max xs.length ys.length := by
  have closed : multisetDistance = fun xs ys : List String => changes xs ys :=
    funext₂ multisetDistance_eq
  have closed' : pairCost = fun xs ys : List String => changes xs ys := funext₂ pairCost_eq
  refine ⟨closed ▸ isMatchingMetric_changes, closed'.trans closed.symm, fun xs ys => ?_⟩
  refine ⟨(Histogram.found_ofLabels xs ys).symm, ?_⟩
  have common := card_inter_le_min xs ys
  rw [← commonCount_eq, Multiset.coe_card, Multiset.coe_card] at common
  omega

example : multisetDistance ["a", "a", "b"] ["a", "c"] = 2 := by decide

end GraphCompare
