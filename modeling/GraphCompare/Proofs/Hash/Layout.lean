import Mathlib
import GraphCompare.Proofs.Hash.Rounds
import GraphCompare.Settings.Basic

/-!
# Layout in labels

A fingerprint does not see layout (`fingerprint_congr`), but a round sorts what a node hears before
it takes a fingerprint, and sorting does. `Graph.SameButLayout` relates graphs that are the same but
for layout in their labels. As long as every round puts the texts that a node hears in the same
order (`Graph.heardSorted`), such graphs have the same hash and the same histories
(`Graph.hash_eq_of_sameButLayout`): the labels at the start are the same but for layout, and a round
makes them the same (`SameButLayout.labelsAfter_succ`). Without the condition on the order the
hashes can differ (`Graph.hash_visit_indented`).
-/

namespace GraphCompare

/-! ## Texts without their layout -/

@[simp] theorem withoutLayout_withoutLayout (s : String) :
    withoutLayout (withoutLayout s) = withoutLayout s := by
  simp [withoutLayout]

/-- Layout can be taken out before the fingerprint. -/
theorem fingerprint_withoutLayout (size : ℕ) (s : String) :
    fingerprint size (withoutLayout s) = fingerprint size s := by
  rw [fingerprint, fingerprint, withoutLayout_withoutLayout]

/-- A fingerprint does not see layout. -/
theorem fingerprint_congr {s t : String} (h : withoutLayout s = withoutLayout t) (size : ℕ) :
    fingerprint size s = fingerprint size t := by
  rw [fingerprint, fingerprint, h]

@[simp] theorem withoutLayout_append (s t : String) :
    withoutLayout (s ++ t) = withoutLayout s ++ withoutLayout t := by
  simp [withoutLayout]

/-- Layout is taken out of texts one by one. -/
theorem withoutLayout_join (l : List String) :
    withoutLayout (String.join l) = String.join (l.map withoutLayout) := by
  have toList : (withoutLayout (String.join l)).toList =
      (String.join (l.map withoutLayout)).toList := by
    induction l with
    | nil => simp [withoutLayout]
    | cons s l ih => simp [ih]
  exact String.toList_injective toList

/-- The text of a round without its layout. -/
theorem withoutLayout_roundText (labels : List String) (own : String) (hood : List (ℕ × String)) :
    withoutLayout (roundText labels own hood) = withoutLayout own ++
      String.join (((hood.map (markedLabel labels)).mergeSort).map withoutLayout) := by
  rw [roundText, withoutLayout_append, withoutLayout_join]

/-- Two texts in order stay where they are. -/
theorem mergeSort_pair {s t : String} (h : s ≤ t) : [s, t].mergeSort = [s, t] :=
  List.mergeSort_of_pairwise (by simpa using h)

namespace Graph

/-- Two graphs are the same but for attributes that no label is taken from and for layout in the
labels. -/
structure SameButLayout (o : HashOptions) (g h : Graph) : Prop where
  ids : g.nodes.map Node.id = h.nodes.map Node.id
  ends : (g.arcs.map fun a => (a.source, a.target)) = h.arcs.map fun a => (a.source, a.target)
  node_label : ∀ f ∈ o.nodeLabel?, (g.nodes.map fun n => withoutLayout (f n.attributes)) =
    h.nodes.map fun n => withoutLayout (f n.attributes)
  edge_label : ∀ f ∈ o.edgeLabel?, (g.arcs.map fun a => withoutLayout (f a.attributes)) =
    h.arcs.map fun a => withoutLayout (f a.attributes)

/-- The texts that a node hears in the round after a number of rounds, in the order in which the
round puts them. -/
def heardSorted (g : Graph) (o : HashOptions) (j i : ℕ) : List String :=
  ((g.neighbours o i).map (markedLabel (g.labelsAfter o j))).mergeSort

namespace SameButLayout

variable {o : HashOptions} {g h : Graph}

/-- There are as many nodes. -/
theorem length_nodes (s : SameButLayout o g h) : g.nodes.length = h.nodes.length := by
  simpa using congrArg List.length s.ids

/-- The degrees are the same. -/
theorem degrees (s : SameButLayout o g h) :
    (g.nodes.map fun n => g.degree n.id) = h.nodes.map fun n => h.degree n.id := by
  refine List.ext_getElem (by simpa using s.length_nodes) fun i hi hi' => ?_
  rw [List.length_map] at hi hi'
  have hends : ∀ g : Graph, (g.arcs.map fun a => a.endsAt i) =
      (g.arcs.map fun a => (a.source, a.target)).map fun e =>
        (if e.1 = i then 1 else 0) + if e.2 = i then 1 else 0 := by
    intro g
    rw [List.map_map]
    rfl
  have hg := degree_eq_sum (g := g) ⟨i, hi⟩
  have hh := degree_eq_sum (g := h) ⟨i, hi'⟩
  rw [hends, s.ends, ← hends h] at hg
  rw [List.getElem_map, List.getElem_map]
  exact hg.trans hh.symm

/-- The labels at the start are the same but for layout. -/
theorem startLabels (s : SameButLayout o g h) :
    (g.startLabels o).map withoutLayout = (h.startLabels o).map withoutLayout := by
  rw [Graph.startLabels, Graph.startLabels]
  cases hn : o.nodeLabel? with
  | some f =>
    rw [List.map_map, List.map_map]
    exact s.node_label f hn
  | none =>
    cases o.edgeLabel? with
    | some f => simp [s.length_nodes]
    | none =>
      have texts := congrArg (List.map fun d : ℕ => withoutLayout (Decimal.integerText d)) s.degrees
      rw [List.map_map, List.map_map] at texts ⊢
      exact texts

/-- If the labels are the same but for layout and a round puts the texts that each node hears in the
same order, the round makes the labels the same. -/
theorem labelsAfter_succ (s : SameButLayout o g h) {j : ℕ}
    (labels : (g.labelsAfter o j).map withoutLayout = (h.labelsAfter o j).map withoutLayout)
    (order : ∀ i < g.nodes.length,
      (g.heardSorted o j i).map withoutLayout = (h.heardSorted o j i).map withoutLayout) :
    g.labelsAfter o (j + 1) = h.labelsAfter o (j + 1) := by
  refine List.ext_getElem? fun i => ?_
  by_cases hi : i < g.nodes.length
  · have hi' : i < h.nodes.length := s.length_nodes ▸ hi
    have hg : i < (g.labelsAfter o j).length := (length_labelsAfter g o j).symm ▸ hi
    have hh : i < (h.labelsAfter o j).length := (length_labelsAfter h o j).symm ▸ hi'
    have own : withoutLayout (g.labelsAfter o j)[i] = withoutLayout (h.labelsAfter o j)[i] := by
      have := congrArg (·[i]?) labels
      simpa [hg, hh] using this
    have text : withoutLayout (roundText (g.labelsAfter o j) (g.labelsAfter o j)[i]
        (g.neighbours o i)) = withoutLayout (roundText (h.labelsAfter o j) (h.labelsAfter o j)[i]
        (h.neighbours o i)) := by
      rw [withoutLayout_roundText, withoutLayout_roundText, own]
      exact congrArg _ (congrArg _ (order i hi))
    rw [getElem?_labelsAfter_succ g o hi, getElem?_labelsAfter_succ h o hi',
      List.getElem?_eq_getElem hg, List.getElem?_eq_getElem hh]
    exact congrArg some (fingerprint_congr text _)
  · rw [List.getElem?_eq_none (by rw [length_labelsAfter]; omega),
      List.getElem?_eq_none (by rw [length_labelsAfter, ← s.length_nodes]; omega)]

/-- Before every round the labels are the same but for layout. -/
theorem labelsAfter (s : SameButLayout o g h) {j : ℕ} (order : ∀ m < j, ∀ i < g.nodes.length,
    (g.heardSorted o m i).map withoutLayout = (h.heardSorted o m i).map withoutLayout) :
    (g.labelsAfter o j).map withoutLayout = (h.labelsAfter o j).map withoutLayout := by
  induction j with
  | zero => exact s.startLabels
  | succ j ih =>
    have before := ih fun m hm => order m (by omega)
    rw [s.labelsAfter_succ before (order j (by omega))]

/-- Graphs whose labels are the same after every round have the same hash and the same
histories. -/
theorem hash_eq_of_labels (s : SameButLayout o g h)
    (labels : ∀ j < o.iterations, g.labelsAfter o (j + 1) = h.labelsAfter o (j + 1)) :
    g.hash o = h.hash o ∧ g.histories o = h.histories o := by
  have columns : g.columns o = h.columns o := by
    rw [columns_eq_map, columns_eq_map]
    exact List.map_congr_left fun j hj => labels j (List.mem_range.1 hj)
  have hashed : g.hashedColumns o = h.hashedColumns o := by
    have fingerprints := congrArg (List.map (fingerprint o.digestSize)) s.startLabels
    simp only [List.map_map, Function.comp_def, fingerprint_withoutLayout] at fingerprints
    rw [hashedColumns, hashedColumns, columns, fingerprints]
  have rows : ∀ g : Graph, g.histories o = .ofList ((g.nodes.map Node.id).zipIdx.map fun e =>
      (e.1, (g.columns o).map fun column => (column[e.2]?).getD "")) := by
    intro g
    rw [histories_eq, List.zipIdx_map, List.map_map]
    rfl
  constructor
  · rw [hash_eq, hash_eq, hashed]
  · rw [rows, rows, s.ids, columns]

end SameButLayout

/-- **Layout that no sorting sees.** If two graphs are the same but for layout in their labels and
every round puts the texts that a node hears in the same order, layout set aside, then the graphs
have the same hash and their nodes the same histories. -/
theorem hash_eq_of_sameButLayout {o : HashOptions} {g h : Graph} (s : SameButLayout o g h)
    (order : ∀ j < o.iterations, ∀ i < g.nodes.length,
      (g.heardSorted o j i).map withoutLayout = (h.heardSorted o j i).map withoutLayout) :
    g.hash o = h.hash o ∧ g.histories o = h.histories o := by
  refine s.hash_eq_of_labels fun j hj => ?_
  have before := s.labelsAfter fun m (hm : m < j) => order m (by omega)
  exact s.labelsAfter_succ before (order j hj)

/-- One round, and both kinds of labels. -/
def oneRound : HashOptions := HashSettings.options { iterations := 1 }

/-- A function that calls itself twice, on the left and by another label. -/
def visit (right : String) : Graph where
  nodes := [⟨"v", .ofLabel "visit"⟩]
  arcs := [⟨0, 0, .ofLabel "left"⟩, ⟨0, 0, .ofLabel right⟩]
  nodup_ids := by decide
  arcs_inside := by simp

/-- Layout in the label of the second call is all that two such graphs differ in. -/
theorem sameButLayout_visit {right right' : String}
    (h : withoutLayout right = withoutLayout right') :
    SameButLayout oneRound (visit right) (visit right') := by
  refine ⟨rfl, rfl, ?_, ?_⟩
  · rintro f ⟨⟩
    rfl
  · rintro f ⟨⟩
    exact congrArg (fun s => [withoutLayout "left", s]) h

/-- The function hears itself over both calls, in the order of their labels. -/
theorem heardSorted_visit_of_le {right : String} (h : "leftvisit" ≤ right ++ "visit") :
    (visit right).heardSorted oneRound 0 0 = ["leftvisit", right ++ "visit"] :=
  mergeSort_pair h

theorem heardSorted_visit_of_ge {right : String} (h : right ++ "visit" ≤ "leftvisit") :
    (visit right).heardSorted oneRound 0 0 = [right ++ "visit", "leftvisit"] :=
  (mergeSort_eq_of_perm (.swap _ _ _)).trans (mergeSort_pair h)

/-- Layout at the end of a label leaves the order of the two calls as it is. -/
theorem hash_visit_lineEnd :
    (SameButLayout oneRound (visit "right") (visit "right\n") ∧
      ∀ j < oneRound.iterations, ∀ i < (visit "right").nodes.length,
        ((visit "right").heardSorted oneRound j i).map withoutLayout =
          ((visit "right\n").heardSorted oneRound j i).map withoutLayout) ∧
      (visit "right").hash oneRound = (visit "right\n").hash oneRound ∧
      (visit "right").histories oneRound = (visit "right\n").histories oneRound := by
  have same : SameButLayout oneRound (visit "right") (visit "right\n") :=
    sameButLayout_visit (by decide)
  have order : ∀ j < oneRound.iterations, ∀ i < (visit "right").nodes.length,
      ((visit "right").heardSorted oneRound j i).map withoutLayout =
        ((visit "right\n").heardSorted oneRound j i).map withoutLayout := by
    intro j hj i hi
    obtain rfl : j = 0 := Nat.lt_one_iff.1 hj
    obtain rfl : i = 0 := Nat.lt_one_iff.1 hi
    rw [heardSorted_visit_of_le (by decide), heardSorted_visit_of_le (by decide)]
    decide
  exact ⟨⟨same, order⟩, hash_eq_of_sameButLayout same order⟩

/-- The labels of the function after its round. -/
theorem columns_visit (right : String) : (visit right).columns oneRound = [[fingerprint 16
    ("visit" ++ String.join ((visit right).heardSorted oneRound 0 0))]] :=
  rfl

/-- Layout at the front of a label can change the order in which a round reads the calls, and with
it the hash: a line end and two blanks before a label are enough. -/
theorem hash_visit_indented :
    SameButLayout oneRound (visit "right") (visit "\n  right") ∧
      (visit "right").hash oneRound ≠ (visit "\n  right").hash oneRound ∧
      (visit "right").histories oneRound ≠ (visit "\n  right").histories oneRound := by
  have plain : (visit "right").columns oneRound = [["bd5fad9b9e9d12e6b0cd6c530238fdde"]] := by
    rw [columns_visit, heardSorted_visit_of_le (by decide)]
    decide +kernel
  have indented : (visit "\n  right").columns oneRound =
      [["f30112f5dbaff3fed568b99fb92bff50"]] := by
    rw [columns_visit, heardSorted_visit_of_ge (by decide)]
    decide +kernel
  refine ⟨sameButLayout_visit (by decide), ?_, ?_⟩
  · have columns : ∀ right, (visit right).hashedColumns oneRound = (visit right).columns oneRound :=
      fun _ => rfl
    rw [hash_eq, hash_eq, columns, columns, plain, indented]
    decide +kernel
  · intro histories
    have history : ∀ right, ((visit right).histories oneRound).get? "v" =
        some (((visit right).columns oneRound).map fun column => (column[0]?).getD "") := by
      intro right
      rw [columns_eq_map, List.map_map]
      exact get?_histories (visit right) oneRound (0 : Fin 1)
    have same := history "right"
    rw [histories, history, plain, indented] at same
    exact absurd same (by decide)

end Graph

end GraphCompare
