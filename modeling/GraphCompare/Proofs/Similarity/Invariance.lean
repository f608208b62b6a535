import Mathlib
import GraphCompare.Proofs.Edit.Metric
import GraphCompare.Proofs.Similarity

/-!
# The verdict on isomorphic graphs, and in the other order

A verdict goes by two things only: whether the graphs have the same labels, and the least cost of
turning one into the other. Both are the same for isomorphic graphs and do not depend on the order
of the two (`Graph.sameLabels_congr`, `Shape.distance_congr`), however differently the search may
run. So the verdict is the same as well (`Graph.compareBy_eq_of_isomorphic`), as long as time plays
no part in it: a comparison has no time at all, or it makes no search, or its search is not cut
short (`Graph.Undisturbed`).
-/

namespace GraphCompare

namespace Shape

variable {G G' H H' : Shape}

/-- Isomorphic shapes have the same distance from others. -/
theorem distance_congr (hG : G.Isomorphic G') (hH : H.Isomorphic H') :
    G.distance H = G'.distance H' := by
  have le : ∀ {G G' H H' : Shape}, G.Isomorphic G' → H.Isomorphic H' →
      G.distance H ≤ G'.distance H' := by
    intro G G' H H' hG hH
    have first := distance_triangle G G' H
    have second := distance_triangle G' H' H
    rw [hG.distance_eq_zero] at first
    rw [hH.symm.distance_eq_zero] at second
    omega
  exact le_antisymm (le hG hH) (le hG.symm hH.symm)

end Shape

namespace Graph

variable {A A' B B' C : Graph}

/-! ## The same labels -/

theorem SameLabels.symm (h : A.SameLabels B) : B.SameLabels A := by
  rcases h with ⟨hA, hB⟩ | ⟨hA, hB, labels, triples⟩
  · exact .inl ⟨hB, hA⟩
  · exact .inr ⟨hB, hA, labels.symm, triples.symm⟩

theorem SameLabels.trans (h : A.SameLabels B) (h' : B.SameLabels C) : A.SameLabels C := by
  rcases h with ⟨hA, hB⟩ | ⟨hA, hB, labels, triples⟩
  · rcases h' with ⟨-, hC⟩ | ⟨hB', -⟩
    · exact .inl ⟨hA, hC⟩
    · exact absurd hB hB'
  · rcases h' with ⟨hB', -⟩ | ⟨-, hC, labels', triples'⟩
    · exact absurd hB' hB
    · exact .inr ⟨hA, hC, labels.trans labels', triples.trans triples'⟩

/-- Isomorphic graphs have the same labels as others. -/
theorem sameLabels_congr (hA : A.shape.Isomorphic A'.shape) (hB : B.shape.Isomorphic B'.shape) :
    A.SameLabels B ↔ A'.SameLabels B' := by
  have same := sameLabels_of_isomorphic hA
  have same' := sameLabels_of_isomorphic hB
  constructor
  · intro h
    exact same.symm.trans (h.trans same')
  · intro h
    exact same.trans (h.trans same'.symm)

/-! ## Comparisons without regard to time -/

/-- A comparison that no deadline cuts short: it has no time at all, or makes no search, or its
search ends in time. -/
def Undisturbed (clock : Clock) (A B : Graph) (s : SimilaritySettings) : Prop :=
  s.timeoutSeconds = 0 ∨ A.SameLabels B ∨ timesOut clock A B s.bounds = false

/-- Comparisons that no deadline cuts short go by the labels and the distance alone. -/
theorem compareBy_congr {clock clock' : Clock} {s : SimilaritySettings}
    (time : Undisturbed clock A B s) (time' : Undisturbed clock' A' B' s)
    (same : A.SameLabels B ↔ A'.SameLabels B')
    (distance : A.shape.distance B.shape = A'.shape.distance B'.shape) :
    compareBy clock A B s = compareBy clock' A' B' s := by
  by_cases hsame : A.SameLabels B
  · rw [compareBy_of_sameLabels hsame, compareBy_of_sameLabels (same.1 hsame)]
  have hsame' : ¬A'.SameLabels B' := mt same.2 hsame
  have found : searchDistanceBy? clock A B s.bounds =
      searchDistanceBy? clock' A' B' s.bounds := by
    by_cases hzero : s.timeoutSeconds = 0
    · have none : s.bounds.timeout = some 0 := congrArg some hzero
      rw [searchDistanceBy?_of_timeout_zero none, searchDistanceBy?_of_timeout_zero none]
    · have ends := (time.resolve_left hzero).resolve_left hsame
      have ends' := (time'.resolve_left hzero).resolve_left hsame'
      rw [searchDistanceBy?_of_not_timesOut ends, searchDistanceBy?_of_not_timesOut ends',
        Edit.editDistance?_eq_of_limit, Edit.editDistance?_eq_of_limit, distance]
  rw [compareBy_of_not_sameLabels hsame, compareBy_of_not_sameLabels hsame', found]

/-- **The verdict depends on the isomorphism classes of the graphs alone, and not on their order.**
Comparisons of isomorphic graphs, in the same order or in the other one, come to the same verdict
and report the same distance, if no deadline cuts them short. A graph is identical to every
isomorphic one, under any settings and by any clock. -/
theorem compareBy_eq_of_isomorphic (hA : A.shape.Isomorphic A'.shape)
    (hB : B.shape.Isomorphic B'.shape) :
    (∀ (s : SimilaritySettings) (clock clock' clock'' : Clock), Undisturbed clock A B s →
      Undisturbed clock' A' B' s → Undisturbed clock'' B' A' s →
        compareBy clock A B s = compareBy clock' A' B' s ∧
          compareBy clock' A' B' s = compareBy clock'' B' A' s) ∧
    ∀ (s : SimilaritySettings) (clock : Clock), compareBy clock A A' s = .identical := by
  refine ⟨fun s clock clock' clock'' time time' time'' => ⟨?_, ?_⟩, fun s clock => ?_⟩
  · exact compareBy_congr time time' (sameLabels_congr hA hB) (Shape.distance_congr hA hB)
  · exact compareBy_congr time' time'' ⟨.symm, .symm⟩ (Shape.distance_comm _ _)
  · exact compareBy_of_sameLabels (sameLabels_of_isomorphic hA)

/-- Graphs between which the search finds no edits are isomorphic. -/
theorem isomorphic_of_editDistance? (h : A.editDistance? B 0 = some 0) :
    A.shape.Isomorphic B.shape := by
  rw [Edit.editDistance?_eq_of_limit] at h
  split at h
  · exact Shape.distance_eq_zero_iff.1 (Option.some.inj h)
  · cases h

/-- The two calls and the recursive one, with the nodes and the edges in another order. -/
def twoCallsAnew : Graph where
  nodes := [⟨"b", .ofLabel "g"⟩, ⟨"a", .ofLabel "f"⟩]
  arcs := [⟨1, 1, .ofLabel "rec"⟩, ⟨1, 0, .ofLabel "call"⟩, ⟨1, 0, .ofLabel "call"⟩]
  nodup_ids := by decide
  arcs_inside := by decide

/-- The single call, with the nodes in another order. -/
def oneCallAnew : Graph where
  nodes := [⟨"b", .ofLabel "g"⟩, ⟨"a", .ofLabel "f"⟩]
  arcs := [⟨1, 0, .ofLabel "call"⟩]
  nodup_ids := by decide
  arcs_inside := by decide

/-- The two calls compare with the single one as they do in the other order of the nodes, and as the
single one does with them; and without any time they are identical to themselves in another
order. -/
theorem compareBy_twoCallsAnew :
    (twoCalls.shape.Isomorphic twoCallsAnew.shape ∧ oneCall.shape.Isomorphic oneCallAnew.shape ∧
      Undisturbed shortClock twoCalls oneCall {} ∧
      Undisturbed shortClock twoCallsAnew oneCallAnew {} ∧
      Undisturbed .still oneCallAnew twoCallsAnew {}) ∧
    (compareBy shortClock twoCalls oneCall {} = compareBy shortClock twoCallsAnew oneCallAnew {} ∧
      compareBy shortClock twoCallsAnew oneCallAnew {} =
        compareBy .still oneCallAnew twoCallsAnew {}) ∧
    compareBy shortClock twoCalls twoCallsAnew { timeoutSeconds := 0 } = .identical := by
  have hA : twoCalls.shape.Isomorphic twoCallsAnew.shape := isomorphic_of_editDistance? (by cbv)
  have hB : oneCall.shape.Isomorphic oneCallAnew.shape := isomorphic_of_editDistance? (by cbv)
  have time : Undisturbed shortClock twoCalls oneCall {} :=
    .inr (.inr (not_timesOut_shortClock _ _))
  have time' : Undisturbed shortClock twoCallsAnew oneCallAnew {} :=
    .inr (.inr (not_timesOut_shortClock _ _))
  have time'' : Undisturbed .still oneCallAnew twoCallsAnew {} :=
    .inr (.inr (Edit.timedOut_expandTimed (fun _ => rfl) rfl))
  have h := compareBy_eq_of_isomorphic hA hB
  exact ⟨⟨hA, hB, time, time', time''⟩, h.1 {} _ _ _ time time' time'', h.2 _ _⟩

end Graph

end GraphCompare
