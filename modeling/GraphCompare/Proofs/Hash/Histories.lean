import Mathlib
import GraphCompare.Proofs.Hash.Listing
import GraphCompare.Proofs.Hash.Rounds

/-!
# Histories and the hash

The histories of the nodes and the hash of the graph come of rounds that are made apart, the ones
kept by id and the others counted by position. Both go along the same columns of labels. Since ids
are distinct, no history is lost, and the entries that all histories have for one round are the
labels after it in another order (`Graph.roundOf_histories_perm`). A histogram does not see the
order, so the text whose fingerprint is the hash can be written from the histories
(`Graph.histories_and_hash`), also from those of more rounds: further rounds add to a history at its
end and change nothing before.
-/

namespace GraphCompare

/-- The entries that the histories have for one round. -/
def roundOf (histories : SortedMap NodeId (List String)) (j : ℕ) : List String :=
  histories.entries.filterMap fun e => e.2[j]?

namespace Graph

variable (g : Graph) (o : HashOptions)

/-! ## The keys and the entries of histories -/

/-- Every id has one history. -/
theorem keys_histories_perm : (g.histories o).keys.Perm (g.nodes.map Node.id) := by
  have ids : (g.historyList o).map Prod.fst = g.nodes.map Node.id := by
    refine List.ext_getElem (by simp [historyList]) fun i hi _ => ?_
    simp [historyList, node]
  exact ids ▸ (g.perm_histories o).map Prod.fst

variable {g o} in
/-- Only nodes have histories. -/
theorem get?_histories_of_notMem {id : NodeId} (h : id ∉ g.nodes.map Node.id) :
    (g.histories o).get? id = none := by
  rw [SortedMap.get?, List.lookup_eq_none_iff]
  intro e he
  rw [bne_iff_ne]
  rintro rfl
  exact h ((g.keys_histories_perm o).mem_iff.1 (List.mem_map_of_mem he))

/-- After any round the labels are fingerprints. -/
theorem isFingerprint_labelsAfter {i : ℕ} (hi : i < g.nodes.length) (j : ℕ) :
    IsFingerprint o.digestSize (((g.labelsAfter o (j + 1))[i]?).getD "") := by
  have before : i < (g.labelsAfter o j).length := by rwa [length_labelsAfter]
  rw [getElem?_labelsAfter_succ g o hi, List.getElem?_eq_getElem before]
  exact isFingerprint_fingerprint _ _

/-- A history has a fingerprint for each round. -/
theorem isFingerprint_of_mem_histories {e : NodeId × List String}
    (he : e ∈ (g.histories o).entries) :
    e.2.length = o.iterations ∧ ∀ s ∈ e.2, IsFingerprint o.digestSize s := by
  obtain ⟨i, -, rfl⟩ := List.mem_map.1 ((g.perm_histories o).mem_iff.1 he)
  refine ⟨by simp, fun s hs => ?_⟩
  obtain ⟨j, -, rfl⟩ := List.mem_map.1 hs
  exact g.isFingerprint_labelsAfter o i.2 j

/-! ## Other numbers of rounds -/

/-- Each round is the same however many follow. -/
theorem labelsAfter_withRounds (rounds j : ℕ) :
    g.labelsAfter (o.withRounds rounds) j = g.labelsAfter o j := rfl

/-- With fewer rounds a history breaks off earlier. -/
theorem get?_histories_withRounds {k m : ℕ} (h : k ≤ m) (id : NodeId) :
    (g.histories (o.withRounds k)).get? id =
      ((g.histories (o.withRounds m)).get? id).map (List.take k) := by
  by_cases hid : id ∈ g.nodes.map Node.id
  · obtain ⟨n, hn, rfl⟩ := List.mem_map.1 hid
    obtain ⟨i, rfl⟩ := List.mem_iff_get.1 hn
    have history := fun rounds => g.get?_histories (o.withRounds rounds) i
    simp only [node, labelsAfter_withRounds, HashOptions.iterations_withRounds] at history
    rw [history, history, Option.map_some, ← List.map_take, List.take_range, Nat.min_eq_left h]
  · rw [get?_histories_of_notMem hid, get?_histories_of_notMem hid, Option.map_none]

/-- The entries of all histories for a round are the labels after it. -/
theorem roundOf_histories_perm {j : ℕ} (hj : j < o.iterations) :
    (roundOf (g.histories o) j).Perm (g.labelsAfter o (j + 1)) := by
  have entries : (g.historyList o).filterMap (fun e => e.2[j]?) = g.labelsAfter o (j + 1) := by
    have found (i : Fin g.nodes.length) :
        ((List.range o.iterations).map fun j =>
          ((g.labelsAfter o (j + 1))[(i : ℕ)]?).getD "")[j]? =
          some (((g.labelsAfter o (j + 1))[(i : ℕ)]?).getD "") := by
      simp [hj]
    simp only [historyList, List.filterMap_map, Function.comp_def, found, List.filterMap_eq_map']
    have length := g.length_labelsAfter o (j + 1)
    exact List.ext_getElem (by simp [length]) fun i _ _ => by simp [length]
  exact entries ▸ (g.perm_histories o).filterMap _

/-- Where there are rounds, the hash is that of the labels after each of them. -/
theorem hash_withRounds {k : ℕ} (hk : 1 ≤ k) : g.hash (o.withRounds k) =
    fingerprint o.digestSize (listing ((List.range k).flatMap fun j =>
      (Histogram.ofLabels (g.labelsAfter o (j + 1))).entries)) := by
  obtain ⟨k, rfl⟩ := Nat.exists_eq_add_of_le' hk
  have columns : g.hashedColumns (o.withRounds (k + 1)) = g.columns (o.withRounds (k + 1)) := rfl
  rw [hash_eq, columns, columns_eq_map, List.flatMap_map]
  rfl

/-- The labels that histories have for a round are hexadecimal. -/
theorem isHexText_of_mem_roundOf {j : ℕ} {e : String × ℕ}
    (he : e ∈ Histogram.labelCounts (roundOf (g.histories o) j)) : IsHexText e.1 := by
  obtain ⟨h, hh, hj⟩ := List.mem_filterMap.1 (Histogram.mem_labelCounts.1 he).1
  exact ((g.isFingerprint_of_mem_histories o hh).2 _ (List.mem_of_getElem? hj)).hex

/-- **Histories and the hash agree.** Every id has one history, which holds a fingerprint for each
round; with fewer rounds a history is a front of what it is with more. And the hash is the
fingerprint of a text that the histories give: the labels that they have for the first round, each
between quotes and with its number, in sorted order, then those for the second, and so on. -/
theorem histories_and_hash {k m : ℕ} (hk : 1 ≤ k) (hkm : k ≤ m) :
    (g.histories (o.withRounds m)).keys.Perm (g.nodes.map Node.id) ∧
    (∀ e ∈ (g.histories (o.withRounds m)).entries,
      e.2.length = m ∧ ∀ s ∈ e.2, IsFingerprint o.digestSize s) ∧
    (∀ id, (g.histories (o.withRounds k)).get? id =
      ((g.histories (o.withRounds m)).get? id).map (List.take k)) ∧
    g.hash (o.withRounds k) = fingerprint o.digestSize ("[" ++ ", ".intercalate
      (((List.range k).flatMap fun j =>
        Histogram.labelCounts (roundOf (g.histories (o.withRounds m)) j)).map fun e =>
          "(\"" ++ e.1 ++ "\", " ++ toString e.2 ++ ")") ++ "]") := by
  refine ⟨g.keys_histories_perm _, fun e he => g.isFingerprint_of_mem_histories _ he,
    g.get?_histories_withRounds o hkm, ?_⟩
  have counts : ((List.range k).flatMap fun j =>
      (Histogram.ofLabels (g.labelsAfter o (j + 1))).entries) =
      (List.range k).flatMap fun j =>
        Histogram.labelCounts (roundOf (g.histories (o.withRounds m)) j) := by
    refine List.flatMap_congr fun j hj => ?_
    have within : j < (o.withRounds m).iterations := (List.mem_range.1 hj).trans_le hkm
    rw [← Histogram.entries_ofLabels,
      Histogram.ofLabels_eq_of_perm (g.roundOf_histories_perm (o.withRounds m) within),
      labelsAfter_withRounds]
  rw [hash_withRounds g o hk, counts, listing_eq_of_isHexText]
  intro e he
  obtain ⟨j, -, he⟩ := List.mem_flatMap.1 he
  exact g.isHexText_of_mem_roundOf _ he

/-- Two functions of one name, of which one calls the other, and a third one. -/
def homonyms : Graph where
  nodes := [⟨"f1", .ofLabel "f"⟩, ⟨"g1", .ofLabel "g"⟩, ⟨"f2", .ofLabel "f"⟩]
  arcs := [⟨0, 2, .ofLabel "call"⟩]
  nodup_ids := by decide
  arcs_inside := by decide

/-- Short fingerprints of labels. -/
def shortly : HashOptions := HashOptions.labelled.withDigestSize 4

/-- The hash of two rounds from the histories of three. The homonyms have one history, so their
labels are counted together. -/
theorem homonyms_histories_and_hash :
    (1 ≤ 2 ∧ 2 ≤ 3) ∧
    (homonyms.histories (shortly.withRounds 3)).keys.Perm ["f1", "g1", "f2"] ∧
    (homonyms.histories (shortly.withRounds 3)).entries =
      [("f1", ["6752574f", "cc468ff5", "4cb30d3a"]), ("f2", ["6752574f", "cc468ff5", "4cb30d3a"]),
        ("g1", ["805a31de", "c3ea3844", "440a407a"])] ∧
    (homonyms.histories (shortly.withRounds 2)).get? "g1" = some ["805a31de", "c3ea3844"] ∧
    homonyms.hash (shortly.withRounds 2) = fingerprint 4
      ("[(\"6752574f\", 2), (\"805a31de\", 1), " ++
        "(\"c3ea3844\", 1), (\"cc468ff5\", 2)]") ∧
    homonyms.hash (shortly.withRounds 2) = "5b3c4d0b" := by
  have recorded : (homonyms.histories (shortly.withRounds 3)).entries =
      [("f1", ["6752574f", "cc468ff5", "4cb30d3a"]), ("f2", ["6752574f", "cc468ff5", "4cb30d3a"]),
        ("g1", ["805a31de", "c3ea3844", "440a407a"])] := by decide +kernel
  have counts : ((List.range 2).flatMap fun j =>
      Histogram.labelCounts (roundOf (homonyms.histories (shortly.withRounds 3)) j)) =
        [("6752574f", 2), ("805a31de", 1), ("c3ea3844", 1), ("cc468ff5", 2)] := by
    simp only [← Histogram.entries_ofLabels, roundOf, recorded]
    decide
  obtain ⟨keys, -, front, hash⟩ := histories_and_hash homonyms shortly
    (k := 2) (m := 3) (by decide) (by decide)
  rw [counts] at hash
  have third : (homonyms.histories (shortly.withRounds 2)).get? "g1" =
      some ["805a31de", "c3ea3844"] := by
    rw [front, SortedMap.get?, recorded]
    decide
  exact ⟨by decide, keys, recorded, third, hash, hash.trans (by decide +kernel)⟩

end Graph

end GraphCompare
