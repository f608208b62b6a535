import Mathlib
import GraphCompare.Proofs.Hash.Invariance

/-!
# The labels after a number of rounds

`Graph.labelsAfter` is the column of labels after a number of rounds, the labels at the start after
none. The columns that the rounds produce are these, one for each round (`Graph.columns_eq_map`),
and the history of a node is what they hold at its position (`Graph.get?_histories`). So a statement
about all rounds can be proved by induction on the number of rounds, through what one round makes of
a column (`Graph.getElem?_labelsAfter_succ`).
-/

namespace GraphCompare

/-- The columns that rounds produce are the first iterates of a round. -/
theorem roundLabels_eq_map (step : List String → List String) (rounds : ℕ) (labels : List String) :
    roundLabels step rounds labels = (List.range rounds).map fun j => step^[j + 1] labels := by
  induction rounds generalizing labels with
  | zero => rfl
  | succ n ih =>
    rw [roundLabels, ih, List.range_succ_eq_map, List.map_cons, List.map_map]
    rfl

namespace Graph

variable (g : Graph) (o : HashOptions)

/-- The labels of all nodes after a number of rounds. -/
def labelsAfter (rounds : ℕ) : List String :=
  (relabel o.digestSize (g.neighbourhood o))^[rounds] (g.startLabels o)

/-- One more round. -/
theorem labelsAfter_succ (j : ℕ) : g.labelsAfter o (j + 1) =
    relabel o.digestSize (g.neighbourhood o) (g.labelsAfter o j) :=
  Function.iterate_succ_apply' _ _ _

/-- There is a column for each round. -/
theorem columns_eq_map :
    g.columns o = (List.range o.iterations).map fun j => g.labelsAfter o (j + 1) :=
  roundLabels_eq_map _ _ _

/-- Every node has a label after every round. -/
theorem length_labelsAfter (j : ℕ) : (g.labelsAfter o j).length = g.nodes.length := by
  induction j with
  | zero => exact g.length_startLabels o
  | succ j ih => rw [labelsAfter_succ, length_relabel g o ih]

/-- What one more round makes of the label of a node. -/
theorem getElem?_labelsAfter_succ {i : ℕ} (hi : i < g.nodes.length) (j : ℕ) :
    (g.labelsAfter o (j + 1))[i]? = (g.labelsAfter o j)[i]?.map fun own =>
      fingerprint o.digestSize (roundText (g.labelsAfter o j) own (g.neighbours o i)) := by
  rw [labelsAfter_succ, getElem?_relabel g o hi]

/-- The nodes with their labels after the rounds, both in their order. -/
def historyList : List (NodeId × List String) :=
  (List.finRange g.nodes.length).map fun i => ((g.node i).id, (List.range o.iterations).map fun j =>
    ((g.labelsAfter o (j + 1))[(i : ℕ)]?).getD "")

/-- No node comes twice. -/
theorem nodup_historyList : ((g.historyList o).map Prod.fst).Nodup := by
  rw [historyList, List.map_map]
  exact (List.nodup_finRange _).map fun _ _ h => id_inj.1 h

theorem histories_eq_ofList : g.histories o = .ofList (g.historyList o) := by
  rw [histories_eq, columns_eq_map, historyList]
  congr 1
  refine List.ext_getElem (by simp) fun i hi _ => ?_
  simp [node]

/-- The history of a node: its labels after the rounds, in their order. -/
theorem get?_histories (i : Fin g.nodes.length) :
    (g.histories o).get? (g.node i).id = some ((List.range o.iterations).map fun j =>
      ((g.labelsAfter o (j + 1))[(i : ℕ)]?).getD "") := by
  rw [histories_eq_ofList]
  exact SortedMap.get?_ofList (g.nodup_historyList o) (List.mem_map_of_mem (List.mem_finRange i))

/-- The histories are those of the nodes, each under its id. -/
theorem perm_histories : (g.histories o).entries.Perm (g.historyList o) := by
  rw [histories_eq_ofList]
  exact SortedMap.perm_entries_ofList (g.nodup_historyList o)

end Graph

end GraphCompare
