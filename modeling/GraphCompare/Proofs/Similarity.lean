import Mathlib
import GraphCompare.Similarity
import GraphCompare.Proofs.Difference.Emptiness
import GraphCompare.Proofs.Edit.Script
import GraphCompare.Proofs.Edit.Timed

/-!
# What decides on similarity

Two graphs are compared twice over. The quick look at their difference asks for the same sets of
labels and label triples; the search asks for the least cost, which counts every node and edge. A
pair that the search would find at no cost never gets to it: a matching without cost is an
isomorphism, and isomorphic graphs have the same labels (`Graph.sameLabels_of_isomorphic`). Together
with what a search with a deadline can find this gives the verdict on any two graphs, under any
settings and by any clock (`Graph.compareBy_decides`).
-/

namespace GraphCompare

open Edit (editDistance?_eq)

/-! ## Labels and isomorphisms -/

namespace Graph

variable {g A B : Graph}

/-- The labels of the nodes, by position. -/
theorem mem_labels {l : String} : l ∈ g.labels ↔ ∃ u : g.shape.nodes, g.shape.label u = l := by
  constructor
  · rintro ⟨n, hn, rfl⟩
    obtain ⟨i, hi, rfl⟩ := List.mem_iff_getElem.1 hn
    exact ⟨⟨i, Finset.mem_range.2 hi⟩, by simp [shape, labelAt, hi]⟩
  · rintro ⟨⟨u, hu⟩, rfl⟩
    have hu : u < g.nodes.length := Finset.mem_range.1 hu
    exact ⟨g.nodes[u], List.getElem_mem hu, by simp [shape, labelAt, hu]⟩

/-- The label triples, by position. -/
theorem mem_triples {t : EdgeTriple} : t ∈ g.triples ↔ ∃ u w : g.shape.nodes,
    t.label ∈ g.shape.between u w ∧ g.shape.label u = t.source ∧ g.shape.label w = t.target := by
  constructor
  · rintro ⟨a, ha, rfl⟩
    have hlink : (a.source, a.target, a.label) ∈ g.shape.edges :=
      Multiset.mem_coe.2 (List.mem_map_of_mem ha)
    obtain ⟨hs, ht⟩ := g.shape.inside _ hlink
    refine ⟨⟨a.source, hs⟩, ⟨a.target, ht⟩, ?_, rfl, rfl⟩
    exact Multiset.mem_map.2 ⟨_, Multiset.mem_filter.2 ⟨hlink, rfl, rfl⟩, rfl⟩
  · rintro ⟨u, w, hl, hs, ht⟩
    have hlink := Multiset.mem_coe.1 (Shape.mem_edges_of_mem_between hl)
    obtain ⟨a, ha, he⟩ := List.mem_map.1 hlink
    have hsource : a.source = u := congrArg (fun e : Link => e.1) he
    have htarget : a.target = w := congrArg (fun e : Link => e.2.1) he
    have hlabel : a.label = t.label := congrArg (fun e : Link => e.2.2) he
    refine ⟨a, ha, ?_⟩
    rw [triple, hsource, htarget, hlabel]
    cases t
    cases hs
    cases ht
    rfl

theorem labels_subset_of_isomorphic (h : A.shape.Isomorphic B.shape) : A.labels ⊆ B.labels := by
  obtain ⟨e, hlabel, -⟩ := h
  intro l hl
  obtain ⟨u, rfl⟩ := mem_labels.1 hl
  exact mem_labels.2 ⟨e u, hlabel u⟩

theorem triples_subset_of_isomorphic (h : A.shape.Isomorphic B.shape) : A.triples ⊆ B.triples := by
  obtain ⟨e, hlabel, hbetween⟩ := h
  intro t ht
  obtain ⟨u, w, hl, hs, ht⟩ := mem_triples.1 ht
  refine mem_triples.2 ⟨e u, e w, ?_, ?_, ?_⟩
  · rwa [hbetween]
  · rw [hlabel, hs]
  · rw [hlabel, ht]

/-- Isomorphic graphs have the same labels. -/
theorem sameLabels_of_isomorphic (h : A.shape.Isomorphic B.shape) : A.SameLabels B := by
  have labels : A.labels = B.labels :=
    (labels_subset_of_isomorphic h).antisymm (labels_subset_of_isomorphic h.symm)
  have triples : A.triples = B.triples :=
    (triples_subset_of_isomorphic h).antisymm (triples_subset_of_isomorphic h.symm)
  have empty : A.nodes = [] ↔ B.nodes = [] := by
    rw [← labels_eq_empty_iff, ← labels_eq_empty_iff, labels]
  by_cases hA : A.nodes = []
  · exact .inl ⟨hA, empty.1 hA⟩
  · exact .inr ⟨hA, fun hB => hA (empty.2 hB), labels, triples⟩

/-- Graphs without distance have the same labels. -/
theorem sameLabels_of_distance_eq_zero (h : A.shape.distance B.shape = 0) : A.SameLabels B :=
  sameLabels_of_isomorphic (Shape.distance_eq_zero_iff.1 h)

/-! ## The verdict -/

section
variable {clock : Clock} {s : SimilaritySettings}

/-- Graphs with the same labels are identical, and no search is made. -/
theorem compareBy_of_sameLabels (h : A.SameLabels B) : compareBy clock A B s = .identical :=
  if_pos ((Difference.isEmpty_between_iff A B).2 h)

/-- For all other graphs the search decides. -/
theorem compareBy_of_not_sameLabels (h : ¬A.SameLabels B) : compareBy clock A B s =
    match searchDistanceBy? clock A B s.bounds with
    | none => .unresolved
    | some d => if d < s.threshold.toNat then .near d else .distant d :=
  if_neg (mt (Difference.isEmpty_between_iff A B).1 h)

/-- Only graphs with the same labels are identical. -/
theorem compareBy_eq_identical_iff : compareBy clock A B s = .identical ↔ A.SameLabels B := by
  refine ⟨fun h => ?_, compareBy_of_sameLabels⟩
  by_contra hnot
  rw [compareBy_of_not_sameLabels hnot] at h
  split at h
  · cases h
  · split at h <;> cases h

/-- A verdict reports no distance but the answer of the search, and only of graphs that differ. -/
theorem found_of_compareBy {d : ℕ}
    (h : compareBy clock A B s = .near d ∨ compareBy clock A B s = .distant d) :
    ¬A.SameLabels B ∧ searchDistanceBy? clock A B s.bounds = some d := by
  have hnot : ¬A.SameLabels B := by
    intro hsame
    rw [compareBy_of_sameLabels hsame] at h
    rcases h with h | h <;> cases h
  refine ⟨hnot, ?_⟩
  rw [compareBy_of_not_sameLabels hnot] at h
  cases hfound : searchDistanceBy? clock A B s.bounds with
  | none =>
    rw [hfound] at h
    rcases h with h | h <;> cases h
  | some e =>
    simp only [hfound] at h
    by_cases hlt : e < s.threshold.toNat
    · rw [if_pos hlt] at h
      rcases h with h | h <;> cases h
      rfl
    · rw [if_neg hlt] at h
      rcases h with h | h <;> cases h
      rfl

/-- No verdict reports the distance zero. -/
theorem pos_of_compareBy {d : ℕ}
    (h : compareBy clock A B s = .near d ∨ compareBy clock A B s = .distant d) : 0 < d := by
  obtain ⟨hnot, hfound⟩ := found_of_compareBy h
  have hne : A.shape.distance B.shape ≠ 0 := mt sameLabels_of_distance_eq_zero hnot
  exact (Nat.pos_of_ne_zero hne).trans_le (le_of_searchDistanceBy? hfound).1

end

/-- **The verdict on two graphs.** They are identical exactly if they have the same labels. For all
others a search without any time leaves the question open; a search that is not cut short leaves it
open if the least cost exceeds the bound, and otherwise the least cost is compared with the
threshold. Graphs without distance are identical whatever the bounds, so no verdict, not even after
a search that was cut short, reports the distance zero. -/
theorem compareBy_decides (clock : Clock) (A B : Graph) (s : SimilaritySettings) :
    (compareBy clock A B s = .identical ↔ A.SameLabels B) ∧
    (¬A.SameLabels B → s.timeoutSeconds = 0 → compareBy clock A B s = .unresolved) ∧
    (¬A.SameLabels B → A.Indexable → B.Indexable → timesOut clock A B s.bounds = false →
      compareBy clock A B s =
        if s.upperBound.toNat < A.shape.distance B.shape then .unresolved
        else if A.shape.distance B.shape < s.threshold.toNat then .near (A.shape.distance B.shape)
        else .distant (A.shape.distance B.shape)) ∧
    (A.shape.distance B.shape = 0 → compareBy clock A B s = .identical) ∧
    compareBy clock A B s ≠ .near 0 ∧ compareBy clock A B s ≠ .distant 0 := by
  refine ⟨compareBy_eq_identical_iff, ?_, ?_, ?_, ?_, ?_⟩
  · intro hnot hzero
    have hnone : searchDistanceBy? clock A B s.bounds = none :=
      searchDistanceBy?_of_timeout_zero (congrArg some hzero)
    rw [compareBy_of_not_sameLabels hnot, hnone]
  · intro hnot hA hB htime
    have hsearch : searchDistanceBy? clock A B s.bounds = A.editDistance? B s.upperBound :=
      searchDistanceBy?_of_not_timesOut htime
    rw [compareBy_of_not_sameLabels hnot, hsearch, editDistance?_eq hA hB]
    by_cases hle : A.shape.distance B.shape ≤ s.upperBound.toNat
    · rw [if_pos hle, if_neg (not_lt.2 hle)]
    · rw [if_neg hle, if_pos (not_le.1 hle)]
  · exact fun hzero => compareBy_of_sameLabels (sameLabels_of_distance_eq_zero hzero)
  · exact fun h => (pos_of_compareBy (.inl h)).false
  · exact fun h => (pos_of_compareBy (.inr h)).false

/-- A clock that moves on by a millisecond each time it is read, and stands still after four
seconds. -/
def shortClock : Clock where
  now := fun k => min (k * 1000000) 4000000000
  last := 3600000000000
  monotone := fun k => by omega
  now_le_last := fun k => by omega

theorem not_sameLabels_twoCalls : ¬twoCalls.SameLabels oneCall := by
  intro h
  have hempty := (Difference.isEmpty_between_iff twoCalls oneCall).2 h
  revert hempty
  decide

/-- By this clock no search with the default limit of time is cut short. -/
theorem not_timesOut_shortClock (A B : Graph) :
    timesOut shortClock A B ({} : SimilaritySettings).bounds = false := by
  have hdeadline : ({} : SimilaritySettings).bounds.deadline? shortClock = some 5000000000 := by
    decide
  refine Edit.timedOut_expandTimed (fun k => ?_) rfl
  rw [hdeadline]
  exact decide_eq_false (by simp only [shortClock]; omega)

/-- A single call is near two calls and a recursive one, at two edits. Without time that stays open,
and the graph itself is identical to it even so. -/
theorem compareBy_twoCalls :
    ((¬twoCalls.SameLabels oneCall ∧ twoCalls.Indexable ∧ oneCall.Indexable ∧
      timesOut shortClock twoCalls oneCall ({} : SimilaritySettings).bounds = false) ∧
      compareBy shortClock twoCalls oneCall {} = .near 2) ∧
    compareBy shortClock twoCalls oneCall { timeoutSeconds := 0 } = .unresolved ∧
    twoCalls.shape.distance twoCalls.shape = 0 ∧
      compareBy shortClock twoCalls twoCalls { timeoutSeconds := 0 } = .identical := by
  have hdistance : twoCalls.shape.distance oneCall.shape = 2 := by
    have hrun : twoCalls.editDistance? oneCall 2 = some 2 := by cbv
    rw [editDistance?_eq twoCalls_indexable oneCall_indexable] at hrun
    split at hrun
    · exact Option.some.inj hrun
    · cases hrun
  have hnear := (compareBy_decides shortClock twoCalls oneCall {}).2.2.1
    not_sameLabels_twoCalls twoCalls_indexable oneCall_indexable (not_timesOut_shortClock _ _)
  rw [hdistance] at hnear
  have hopen := (compareBy_decides shortClock twoCalls oneCall { timeoutSeconds := 0 }).2.1
    not_sameLabels_twoCalls rfl
  have hself : twoCalls.shape.distance twoCalls.shape = 0 :=
    Shape.Isomorphic.distance_eq_zero ⟨Equiv.refl _, fun _ => rfl, fun _ _ => rfl⟩
  have hidentical := (compareBy_decides shortClock twoCalls twoCalls
    { timeoutSeconds := 0 }).2.2.2.1 hself
  exact ⟨⟨⟨not_sameLabels_twoCalls, twoCalls_indexable, oneCall_indexable,
    not_timesOut_shortClock _ _⟩, hnear⟩, hopen, hself, hidentical⟩

end Graph

end GraphCompare
