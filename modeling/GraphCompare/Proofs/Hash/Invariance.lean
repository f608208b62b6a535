import Mathlib
import GraphCompare.Proofs.Hash.Columns
import GraphCompare.Proofs.Hash.Correspondence
import GraphCompare.Proofs.Hash.Histogram
import GraphCompare.Settings.Basic

/-!
# The hash does not see ids, orders and directions

A correspondence of two graphs carries one column of labels to another if corresponding nodes have
the same label (`Graph.Correspondence.Carries`). It carries the labels at the start whatever they
are: node labels, empty labels or degrees (`carries_startLabels`). One round preserves this, since
corresponding nodes hear the same labels in another order and a round sorts them
(`Carries.relabel`); so by induction all rounds do (`Carries.roundLabels`). Columns that are carried
to each other are rearrangements and have one histogram, hence alike graphs have one hash
(`Graph.hash_eq_of_alike`).
-/

namespace GraphCompare

/-- Sorting forgets the order in which texts were given. -/
theorem mergeSort_eq_of_perm {l l' : List String} (h : l.Perm l') : l.mergeSort = l'.mergeSort := by
  have sorted : ∀ l : List String, l.mergeSort.Pairwise fun a b => decide (a ≤ b) = true := by
    intro l
    refine List.pairwise_mergeSort ?_ ?_ l
    · intro a b c hab hbc
      simp only [decide_eq_true_eq] at hab hbc ⊢
      exact hab.trans hbc
    · intro a b
      simpa only [Bool.or_eq_true, decide_eq_true_eq] using le_total a b
  have perm : l.mergeSort.Perm l'.mergeSort :=
    (List.mergeSort_perm _ _).trans (h.trans (List.mergeSort_perm _ _).symm)
  refine perm.eq_of_pairwise (fun a b _ _ hab hba => ?_) (sorted l) (sorted l')
  simp only [decide_eq_true_eq] at hab hba
  exact le_antisymm hab hba

/-- The text of a round does not depend on the order in which the neighbours are listed. -/
theorem roundText_eq_of_perm {labels labels' : List String} {hood hood' : List (ℕ × String)}
    (own : String) (h : (hood.map (markedLabel labels)).Perm (hood'.map (markedLabel labels'))) :
    roundText labels own hood = roundText labels' own hood' := by
  rw [roundText, roundText, mergeSort_eq_of_perm h]

namespace Graph

section
variable (g : Graph) (o : HashOptions)

theorem getElem?_neighbourhood {i : ℕ} (hi : i < g.nodes.length) :
    (g.neighbourhood o)[i]? = some (g.neighbours o i) := by
  simp [neighbourhood, nodeCount, hi]

/-- A round gives a node the fingerprint of its own label and those of its neighbours. -/
theorem getElem?_relabel {size : ℕ} {labels : List String} {i : ℕ} (hi : i < g.nodes.length) :
    (relabel size (g.neighbourhood o) labels)[i]? =
      labels[i]?.map fun own => fingerprint size (roundText labels own (g.neighbours o i)) := by
  rw [relabel, List.getElem?_zipWith, getElem?_neighbourhood g o hi]
  cases labels[i]? <;> rfl

end

namespace Correspondence

variable {o : HashOptions} {g h : Graph} (c : Correspondence o g h)

/-- Corresponding nodes have the same label in two columns. -/
structure Carries (labels labels' : List String) : Prop where
  length : labels.length = g.nodes.length
  length' : labels'.length = h.nodes.length
  label : ∀ i : Fin g.nodes.length, labels'[(c.node i : ℕ)]? = labels[(i : ℕ)]?

namespace Carries

variable {c} {labels labels' : List String}

/-- A column is a rearrangement of the column that it is carried to. -/
theorem perm (hc : c.Carries labels labels') : labels.Perm labels' :=
  perm_of_equiv c.node hc.length hc.length' hc.label

/-- Whatever is made of each label alone is carried along. -/
theorem map (hc : c.Carries labels labels') (f : String → String) :
    c.Carries (labels.map f) (labels'.map f) := by
  refine ⟨?_, ?_, ?_⟩
  · rw [List.length_map, hc.length]
  · rw [List.length_map, hc.length']
  · intro i
    have := hc.label i
    simp_all

/-- Corresponding nodes hear the same over corresponding arcs. -/
theorem heard_arc (hc : c.Carries labels labels') (k : Fin g.arcs.length)
    (i : Fin g.nodes.length) :
    (h.arc (c.arc k)).heard o labels' (c.node i) = (g.arc k).heard o labels i := by
  obtain ⟨x, y, hx, hy, ⟨hs, ht⟩ | ⟨hs, ht⟩⟩ := c.positions_arc k
  · simp only [Arc.heard, c.mark_arc, hs, ht, hx, hy, c.node_val_inj, hc.label]
  · simp only [Arc.heard, c.mark_arc, hs, ht, hx, hy, c.node_val_inj, hc.label]
    -- with the ends the other way round, only an arc from a node to itself answers both tests
    by_cases hxi : (x : ℕ) = i
    · by_cases hyi : (y : ℕ) = i
      · simp [hxi, hyi]
      · simp [hxi, hyi]
    · simp [hxi]

/-- Corresponding nodes hear the same labels, in another order. -/
theorem neighbours_perm (hc : c.Carries labels labels') (i : Fin g.nodes.length) :
    ((g.neighbours o i).map (markedLabel labels)).Perm
      ((h.neighbours o (c.node i)).map (markedLabel labels')) := by
  have perm := (c.arcs_perm fun k => hc.heard_arc k i).filterMap id
  rw [map_neighbours, map_neighbours]
  simpa only [List.filterMap_map, Function.id_comp] using perm

/-- One round carries the labels along. -/
theorem relabel (hc : c.Carries labels labels') (size : ℕ) :
    c.Carries (relabel size (g.neighbourhood o) labels)
      (relabel size (h.neighbourhood o) labels') := by
  refine ⟨length_relabel g o hc.length, length_relabel h o hc.length', ?_⟩
  intro i
  rw [getElem?_relabel h o (c.node i).2, getElem?_relabel g o i.2, hc.label]
  simp only [roundText_eq_of_perm _ (hc.neighbours_perm i)]

/-- All rounds carry the labels along. -/
theorem roundLabels (hc : c.Carries labels labels') (size rounds : ℕ) :
    List.Forall₂ c.Carries
      (roundLabels (GraphCompare.relabel size (g.neighbourhood o)) rounds labels)
      (GraphCompare.roundLabels (GraphCompare.relabel size (h.neighbourhood o)) rounds
        labels') := by
  induction rounds generalizing labels labels' with
  | zero => exact .nil
  | succ k ih => exact .cons (hc.relabel size) (ih (hc.relabel size))

end Carries

/-- Labels that are read off the nodes are carried along if corresponding nodes give the same. -/
theorem carries_map_nodes {f f' : Node → String}
    (hf : ∀ i, f' (h.node (c.node i)) = f (g.node i)) :
    c.Carries (g.nodes.map f) (h.nodes.map f') := by
  refine ⟨List.length_map _, List.length_map _, ?_⟩
  intro i
  have := hf i
  simp_all [Graph.node]

/-- The labels at the start are carried along, whatever they are. -/
theorem carries_startLabels : c.Carries (g.startLabels o) (h.startLabels o) := by
  rw [startLabels, startLabels]
  cases hn : o.nodeLabel? with
  | some f => exact c.carries_map_nodes fun i => c.node_label f hn i
  | none =>
    cases o.edgeLabel? with
    | some f => exact c.carries_map_nodes fun _ => rfl
    | none => exact c.carries_map_nodes fun i => by rw [c.degree_node]

/-- The columns that make up the hash are carried along. -/
theorem carries_hashedColumns :
    List.Forall₂ c.Carries (g.hashedColumns o) (h.hashedColumns o) := by
  rw [hashedColumns, hashedColumns]
  cases o.iterations with
  | zero => exact .cons (c.carries_startLabels.map _) .nil
  | succ k => exact c.carries_startLabels.roundLabels _ _

/-- Columns that are carried to each other have the same histograms. -/
theorem histograms_eq {columns columns' : List (List String)}
    (hc : List.Forall₂ c.Carries columns columns') :
    (columns.flatMap fun labels => (Histogram.ofLabels labels).entries) =
      columns'.flatMap fun labels => (Histogram.ofLabels labels).entries := by
  induction hc with
  | nil => rfl
  | cons hcol _ ih =>
    rw [List.flatMap_cons, List.flatMap_cons, ih, Histogram.ofLabels_eq_of_perm hcol.perm]

end Correspondence

/-- **Invariance of the hash.** Graphs that are alike for the options of a hash have the same hash:
it does not change if ids are renamed, nodes and edges are added in another order, edges are turned
round, or attributes change that no label is taken from. -/
theorem hash_eq_of_alike {o : HashOptions} {g h : Graph} (alike : g.Alike o h) :
    g.hash o = h.hash o := by
  obtain ⟨c⟩ := alike
  rw [hash_eq, hash_eq, c.histograms_eq c.carries_hashedColumns]

/-- A function that calls itself and another one. -/
def selfCaller : Graph where
  nodes := [⟨"f1", .ofLabel "f"⟩, ⟨"g1", .ofLabel "g"⟩]
  arcs := [⟨0, 1, .ofLabel "call"⟩, ⟨0, 0, .ofLabel "rec"⟩]
  nodup_ids := by decide
  arcs_inside := by decide

/-- The same under other ids and in the other order, with the call turned round and lines noted. -/
def selfCallerTurned : Graph where
  nodes := [⟨"y", (Attributes.ofLabel "g").insert "LINE" (.string "7")⟩, ⟨"x", .ofLabel "f"⟩]
  arcs := [⟨1, 1, .ofLabel "rec"⟩, ⟨0, 1, (Attributes.ofLabel "call").insert "LINE" (.string "8")⟩]
  nodup_ids := by decide
  arcs_inside := by decide

theorem alike_selfCaller : selfCaller.Alike (HashSettings.options {}) selfCallerTurned := by
  refine ⟨⟨(Fin.revPerm : Fin 2 ≃ Fin 2), (Fin.revPerm : Fin 2 ≃ Fin 2), ?_, ?_, ?_⟩⟩
  · decide
  · rintro f ⟨⟩
    decide
  · rintro f ⟨⟩
    decide

/-- Renaming, reordering, turning an edge round and adding attributes leave the hash by the default
settings as it is. -/
theorem hash_selfCaller :
    selfCaller.Alike (HashSettings.options {}) selfCallerTurned ∧
      selfCaller.hash (HashSettings.options {}) = selfCallerTurned.hash (HashSettings.options {}) :=
  ⟨alike_selfCaller, hash_eq_of_alike alike_selfCaller⟩

end Graph

end GraphCompare
