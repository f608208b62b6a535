import Mathlib
import GraphCompare.Hash.Rounds

/-!
# The labels round by round

The hash and the histories of a graph each make their rounds on their own: the one counts the labels
of every round and forgets them, the others record them node by node. Here the labels of all nodes
after each round are taken together as columns (`Graph.columns`). What the hash has counted in the
end are the columns one after the other (`Graph.hash_eq`), and the history of a node is what the
columns hold at its position (`Graph.histories_eq`). Both are proved by induction on the number of
rounds, with what was counted or recorded before left free (`countRounds_eq`, `recordRounds_eq`); so
a statement about columns is one about both.
-/

namespace GraphCompare

/-- The labels after each of a number of rounds. -/
def roundLabels (step : List String → List String) : ℕ → List String → List (List String)
  | 0, _ => []
  | k + 1, labels => step labels :: roundLabels step k (step labels)

/-- What is counted is behind what was counted before. -/
theorem countRounds_eq (step : List String → List String) (rounds : ℕ) (labels : List String)
    (counts : List (String × ℕ)) : countRounds step rounds labels counts =
      counts ++ (roundLabels step rounds labels).flatMap fun c =>
        (Histogram.ofLabels c).entries := by
  induction rounds generalizing labels counts with
  | zero => exact (List.append_nil counts).symm
  | succ k ih => rw [countRounds, ih, roundLabels, List.flatMap_cons, List.append_assoc]

/-- Every history goes on with what the rounds hold at its position. -/
theorem recordRounds_eq {step : List String → List String} {n : ℕ}
    (keeps : ∀ labels : List String, labels.length = n → (step labels).length = n) (rounds : ℕ)
    {labels : List String} {histories : List (List String)} (size : labels.length = n)
    (same : histories.length = n) : recordRounds step rounds labels histories =
      histories.zipIdx.map fun (history, i) =>
        history ++ (roundLabels step rounds labels).map fun column => (column[i]?).getD "" := by
  induction rounds generalizing labels histories with
  | zero => simp [recordRounds, roundLabels]
  | succ k ih =>
    have next := keeps labels size
    rw [recordRounds, ih next (by rw [List.length_zipWith, same, next, Nat.min_self])]
    refine List.ext_getElem (by simp [same, next]) fun i hi _ => ?_
    have inside : i < (step labels).length := by
      simp only [List.length_map, List.length_zipIdx, List.length_zipWith] at hi
      omega
    simp [roundLabels, inside]

namespace Graph

variable (g : Graph) (o : HashOptions)

/-- Every node has a label at the start. -/
theorem length_startLabels : (g.startLabels o).length = g.nodes.length := by
  rw [startLabels]
  split <;> exact List.length_map _

theorem length_relabel {size : ℕ} {labels : List String} (h : labels.length = g.nodes.length) :
    (relabel size (g.neighbourhood o) labels).length = g.nodes.length := by
  simp [relabel, neighbourhood, nodeCount, h]

/-- The labels of all nodes after each round. -/
def columns : List (List String) :=
  roundLabels (relabel o.digestSize (g.neighbourhood o)) o.iterations (g.startLabels o)

/-- The label lists whose histograms make up the hash: those of the rounds or, where there are none,
the fingerprints of the labels at the start. -/
def hashedColumns : List (List String) :=
  match o.iterations with
  | 0 => [(g.startLabels o).map (fingerprint o.digestSize)]
  | _ => g.columns o

/-- What makes up the hash is counted column by column. -/
theorem hashedCounts_eq : g.hashedCounts o =
    (g.hashedColumns o).flatMap fun c => (Histogram.ofLabels c).entries := by
  rw [hashedCounts, countRounds_eq, hashedColumns, columns]
  cases o.iterations with
  | zero => simp [roundLabels]
  | succ k => exact List.nil_append _

/-- The hash is the fingerprint of the counts of the columns. -/
theorem hash_eq : g.hash o = fingerprint o.digestSize
    (listing ((g.hashedColumns o).flatMap fun c => (Histogram.ofLabels c).entries)) := by
  rw [hash, hashedCounts_eq]

/-- The histories are what the columns hold at the positions of the nodes. -/
theorem histories_eq : g.histories o = .ofList (g.nodes.zipIdx.map fun (n, i) =>
    (n.id, (g.columns o).map fun column => (column[i]?).getD "")) := by
  have start : ((g.startLabels o).map fun _ => ([] : List String)).length = g.nodes.length := by
    rw [List.length_map, length_startLabels]
  rw [histories, recordRounds_eq (fun _ => g.length_relabel o) o.iterations
    (g.length_startLabels o) start]
  refine congrArg SortedMap.ofList (List.ext_getElem (by simp [length_startLabels]) fun i _ _ => ?_)
  simp [columns]

end Graph

end GraphCompare
