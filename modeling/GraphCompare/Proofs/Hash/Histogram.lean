import Mathlib
import GraphCompare.Hash.Rounds

/-!
# What a histogram holds

A histogram holds the labels that occur, each with the number of times it does
(`Histogram.get?_ofLabels`). So it does not depend on the order in which the labels are counted
(`Histogram.ofLabels_eq_of_perm`), and neither does anything that is computed from it. In order, its
entries are the labels of the list sorted, each once and with its number
(`Histogram.entries_ofLabels`).
-/

namespace GraphCompare.Histogram

/-- Counting on from a histogram adds to the numbers it has. -/
theorem get?_foldl (labels : List String) (h : Histogram) (x : String) :
    (labels.foldl (fun h l => SortedMap.alter h l fun n => n.getD 0 + 1) h).get? x =
      if x ∈ labels then some ((h.get? x).getD 0 + labels.count x) else h.get? x := by
  induction labels generalizing h with
  | nil => simp
  | cons l rest ih =>
    rw [List.foldl_cons, ih, SortedMap.get?_alter]
    by_cases hx : x = l
    · subst hx
      by_cases hrest : x ∈ rest
      · simp only [hrest, List.mem_cons, beq_self_eq_true, if_true, or_true, Option.getD_some,
          List.count_cons_self]
        congr 1
        omega
      · simp [hrest, List.count_eq_zero_of_not_mem hrest]
    · have hb : (x == l) = false := beq_eq_false_iff_ne.2 hx
      simp [hx, hb, List.count_cons_of_ne (Ne.symm hx)]

/-- A histogram holds the labels that occur, and how often each does. -/
theorem get?_ofLabels (labels : List String) (x : String) :
    (ofLabels labels).get? x = if x ∈ labels then some (labels.count x) else none := by
  have none_empty : SortedMap.get? (SortedMap.empty : Histogram) x = none := rfl
  rw [ofLabels, get?_foldl, none_empty]
  simp

/-- The order of the labels does not count. -/
theorem ofLabels_eq_of_perm {labels labels' : List String} (h : labels.Perm labels') :
    ofLabels labels = ofLabels labels' := by
  refine SortedMap.ext_get? fun x => ?_
  rw [get?_ofLabels, get?_ofLabels, h.count_eq]
  simp only [h.mem_iff]

/-- The labels of a list in sorted order, each once and with the number of times it occurs. -/
def labelCounts (labels : List String) : List (String × ℕ) :=
  (labels.toFinset.sort (· ≤ ·)).map fun l => (l, labels.count l)

theorem mem_labelCounts {labels : List String} {e : String × ℕ} :
    e ∈ labelCounts labels ↔ e.1 ∈ labels ∧ labels.count e.1 = e.2 := by
  obtain ⟨x, n⟩ := e
  simp [labelCounts]

/-- A histogram lists the labels with their counts. -/
theorem entries_ofLabels (labels : List String) :
    (ofLabels labels).entries = labelCounts labels := by
  have increasing : Increasing ((labelCounts labels).map Prod.fst) := by
    rw [labelCounts, List.map_map]
    refine List.Pairwise.imp compare_lt_iff_lt.2 ?_
    simpa [Function.comp_def] using (Finset.sortedLT_sort labels.toFinset).pairwise
  refine (ofLabels labels).increasing.eq_of_lookup increasing fun x => Option.ext fun n => ?_
  have held : (ofLabels labels).entries.lookup x = some n ↔ x ∈ labels ∧ labels.count x = n := by
    have found := get?_ofLabels labels x
    rw [SortedMap.get?] at found
    rw [found, Option.ite_none_right_eq_some, Option.some.injEq]
  rw [held, ← increasing.mem_iff_lookup]
  simp [labelCounts]

end GraphCompare.Histogram
