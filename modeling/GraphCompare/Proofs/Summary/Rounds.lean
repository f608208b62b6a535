import Mathlib
import GraphCompare.Proofs.Summary.Refinement

/-!
# The rounds of a summary

`Graph.round` is the partition after any number of rounds, as if they went on for ever. A round
never joins what was apart (`Graph.kernel_round_succ_le`), so the number of groups does not fall,
and one that adds no group has split nothing. It has then changed no number either
(`Partition.Approximates.split_eq`): what it numbers, each group with what its nodes reach, compares
like the groups alone (`Partition.compare_splitKeys`), and these have the only numbers that compare
so (`Partition.Numbers.unique`).

While every round adds a group there are as many groups as rounds (`Graph.le_groupCount_round`), so
at most as many rounds as there are nodes come before one that adds none
(`Graph.exists_round_stops`). The partition of a summary is the one after that round
(`Partition.refineWithin_eq_iterate`): its bound on the rounds plays no part.
-/

namespace GraphCompare

open Std (LawfulEqOrd)

/-- Pairs with different first components compare like these. -/
theorem compare_pair_of_ne {α β : Type} [Ord α] [Ord β] {a a' : α} {b b' : β}
    (h : compare a a' ≠ .eq) : compare (a, b) (a', b') = compare a a' := by
  rw [compare_pair]
  cases hc : compare a a' with
  | lt => rfl
  | eq => exact absurd hc h
  | gt => rfl

namespace Partition

variable {g : Graph} {s : SummarySettings} {p : Partition}

/-! ## What a round numbers -/

/-- What a round numbers: the group of each node with what the node reaches. -/
def splitKeys (arcs : List TypedArc) (p : Partition) : List (ℕ × List (Key × ℕ)) :=
  p.zipIdx.map fun (group, i) => (group, (p.signature arcs i).toList)

@[simp] theorem length_splitKeys (arcs : List TypedArc) (p : Partition) :
    (p.splitKeys arcs).length = p.length := by
  simp [splitKeys]

theorem getElem_splitKeys {arcs : List TypedArc} {i : ℕ} (hi : i < (p.splitKeys arcs).length) :
    (p.splitKeys arcs)[i] = (p.groupOf i, (p.signature arcs i).toList) := by
  rw [length_splitKeys] at hi
  simp [splitKeys, groupOf_eq_getElem hi]

/-- Where a round splits nothing, what it numbers compares like the groups. -/
theorem compare_splitKeys (hp : p.length = g.nodes.length)
    (h : p.kernel g ≤ (p.split (g.typedArcs s)).kernel g) {i j : ℕ}
    (hi : i < (p.splitKeys (g.typedArcs s)).length)
    (hj : j < (p.splitKeys (g.typedArcs s)).length) :
    compare (p.splitKeys (g.typedArcs s))[i] (p.splitKeys (g.typedArcs s))[j] =
      compare (p.groupOf i) (p.groupOf j) := by
  by_cases hij : p.groupOf i = p.groupOf j
  · -- nodes of one group stay together, so they have one key in the round
    have hlt : i < g.nodes.length := by rwa [length_splitKeys, hp] at hi
    have hlt' : j < g.nodes.length := by rwa [length_splitKeys, hp] at hj
    have hkernel : p.kernel g ⟨i, hlt⟩ ⟨j, hlt'⟩ := hij
    have hsame := (groupOf_numbering_inj hi hj).1 (h hkernel)
    rw [hsame, hij]
    simp
  · have hne : compare (p.groupOf i) (p.groupOf j) ≠ .eq := fun heq =>
      hij (LawfulEqOrd.eq_of_compare heq)
    rw [getElem_splitKeys, getElem_splitKeys, compare_pair_of_ne hne]

/-- **A round that adds no group changes no number.** It has split nothing, so it numbers keys that
compare like the groups, and these have their numbers already. -/
theorem Approximates.split_eq (h : Approximates g s p)
    (hcount : (p.split (g.typedArcs s)).groupCount ≤ p.groupCount) :
    p.split (g.typedArcs s) = p := by
  have hle := kernel_split_le (s := s) h.length
  obtain ⟨hge, hsame⟩ := groupCount_of_kernel_le h.length h.split.length hle
  have hequal := Nat.le_antisymm hcount hge
  have hsplit : Numbers (p.splitKeys (g.typedArcs s)) (p.split (g.typedArcs s)) :=
    numbers_numbering _
  have hp : Numbers (p.splitKeys (g.typedArcs s)) p := by
    refine ⟨(length_splitKeys _ p).symm, fun i j hi hj => ?_, fun x => ?_⟩
    · exact (compare_splitKeys h.length (hsame hequal) hi hj).symm
    · rw [← hsplit.groupCount, hequal, h.dense]
  exact hsplit.unique hp

/-- The rounds end with the first one that adds no group. -/
theorem refineWithin_eq_iterate {arcs : List TypedArc} {k rounds : ℕ} (hk : k < rounds)
    (grows : ∀ j < k, ((split arcs)^[j + 1] p).groupCount ≠ ((split arcs)^[j] p).groupCount)
    (stops : ((split arcs)^[k + 1] p).groupCount = ((split arcs)^[k] p).groupCount) :
    refineWithin arcs rounds p = (split arcs)^[k + 1] p := by
  induction k generalizing p rounds with
  | zero =>
    obtain ⟨rounds, rfl⟩ := Nat.exists_eq_add_of_lt hk
    rw [refineWithin]
    exact if_pos stops
  | succ k ih =>
    obtain ⟨rounds, rfl⟩ := Nat.exists_eq_add_of_lt hk
    have later : refineWithin arcs (k + 1 + rounds) (p.split arcs) =
        (split arcs)^[k + 1] (p.split arcs) :=
      ih (by omega) (fun j hj => grows (j + 1) (by omega)) stops
    rw [refineWithin]
    exact (if_neg (grows 0 k.succ_pos)).trans later

end Partition

/-! ## Round after round -/

namespace Graph

open GraphCompare.Partition (split)

variable (g : Graph) (s : SummarySettings)

/-- The partition after a number of rounds. -/
def round (k : ℕ) : Partition :=
  (split (g.typedArcs s))^[k] (numbering (g.nodes.map fun n => n.attributes.key s.nodeAttributes))

theorem round_succ (k : ℕ) : g.round s (k + 1) = (g.round s k).split (g.typedArcs s) :=
  Function.iterate_succ_apply' _ _ _

theorem approximates_round (k : ℕ) : (g.round s k).Approximates g s := by
  induction k with
  | zero => exact Partition.approximates_numbering
  | succ k ih =>
    rw [round_succ]
    exact ih.split

/-- A round only splits groups. -/
theorem kernel_round_succ_le (k : ℕ) : (g.round s (k + 1)).kernel g ≤ (g.round s k).kernel g := by
  rw [round_succ]
  exact Partition.kernel_split_le (g.approximates_round s k).length

/-- So the number of groups does not fall. -/
theorem groupCount_round_le_succ (k : ℕ) :
    (g.round s k).groupCount ≤ (g.round s (k + 1)).groupCount :=
  (Partition.groupCount_of_kernel_le (g.approximates_round s k).length
    (g.approximates_round s (k + 1)).length (g.kernel_round_succ_le s k)).1

/-- As long as every round adds a group, there are as many groups as rounds. -/
theorem le_groupCount_round {k : ℕ}
    (grows : ∀ j < k, (g.round s (j + 1)).groupCount ≠ (g.round s j).groupCount) :
    k ≤ (g.round s k).groupCount := by
  induction k with
  | zero => exact Nat.zero_le _
  | succ k ih =>
    have before := ih fun j hj => grows j (by omega)
    have hle := g.groupCount_round_le_succ s k
    have hne := grows k k.lt_succ_self
    omega

/-- No more rounds than nodes come before the first one that adds no group. -/
theorem exists_round_stops : ∃ k ≤ g.nodes.length,
    (∀ j < k, (g.round s (j + 1)).groupCount ≠ (g.round s j).groupCount) ∧
      (g.round s (k + 1)).groupCount = (g.round s k).groupCount := by
  have bound : ∀ k, (∀ j < k, (g.round s (j + 1)).groupCount ≠ (g.round s j).groupCount) →
      k ≤ g.nodes.length := by
    intro k grows
    have groups := (g.round s k).groupCount_le_length
    rw [(g.approximates_round s k).length] at groups
    exact (g.le_groupCount_round s grows).trans groups
  have stops : ∃ k, (g.round s (k + 1)).groupCount = (g.round s k).groupCount := by
    by_contra never
    have := bound (g.nodes.length + 1) fun j _ stop => never ⟨j, stop⟩
    omega
  have grows : ∀ j < Nat.find stops,
      (g.round s (j + 1)).groupCount ≠ (g.round s j).groupCount := fun j hj =>
    Nat.find_min stops hj
  exact ⟨Nat.find stops, bound _ grows, grows, Nat.find_spec stops⟩

/-- How the rounds of a summary go: every one refines the partition before it, one that adds no
group changes no number, and after at most one more than there are nodes they stop, the first time
that one adds no group. What they stop at is the partition of the summary, whose numbers are all
those below the number of groups. -/
structure SettlesInRounds : Prop where
  refines : ∀ k, (g.round s (k + 1)).kernel g ≤ (g.round s k).kernel g
  unchanged : ∀ k, (g.round s (k + 1)).groupCount ≤ (g.round s k).groupCount →
    g.round s (k + 1) = g.round s k
  stops : ∃ k, k + 1 ≤ g.nodes.length + 1 ∧
    (∀ j < k, (g.round s (j + 1)).groupCount ≠ (g.round s j).groupCount) ∧
    (g.round s (k + 1)).groupCount = (g.round s k).groupCount ∧
    g.partition s = g.round s (k + 1)
  mem_iff : ∀ x, x ∈ g.partition s ↔ x < (g.partition s).groupCount

theorem settlesInRounds : g.SettlesInRounds s where
  refines := g.kernel_round_succ_le s
  unchanged k hcount := by
    rw [round_succ] at hcount ⊢
    exact (g.approximates_round s k).split_eq hcount
  stops := by
    obtain ⟨k, hk, grows, stop⟩ := g.exists_round_stops s
    refine ⟨k, Nat.succ_le_succ hk, grows, stop, ?_⟩
    rw [partition, Partition.refine, List.length_map]
    exact Partition.refineWithin_eq_iterate (Nat.lt_succ_of_le hk) grows stop
  mem_iff := (g.approximates_partition s).1.dense

/-- **Numbers are dense and in the order of the keys, and the rounds come to an end.** Any keys are
numbered so that equal ones get equal numbers and smaller ones smaller numbers, and as many numbers
occur as there are distinct keys, from zero on. So the rounds of a summary can only split groups,
keep every number when they split nothing, and stop. -/
theorem numbers_and_settles {κ : Type} [Ord κ] [Std.TransOrd κ] [LawfulEqOrd κ] (keys : List κ)
    (g : Graph) (s : SummarySettings) :
    Partition.Numbers keys (numbering keys) ∧
      Partition.groupCount (numbering keys) = {k | k ∈ keys}.ncard ∧ g.SettlesInRounds s :=
  ⟨Partition.numbers_numbering keys, (Partition.numbers_numbering keys).groupCount,
    g.settlesInRounds s⟩

/-- A function that calls one that calls a third. -/
def callChain : Graph where
  nodes := [⟨"first", .ofLabel "function"⟩, ⟨"second", .ofLabel "function"⟩,
    ⟨"third", .ofLabel "function"⟩]
  arcs := [⟨0, 1, .ofLabel "call"⟩, ⟨1, 2, .ofLabel "call"⟩]
  nodup_ids := by decide
  arcs_inside := by simp

/-- The three functions have one key. The first round tells the one that calls nothing from the
others, the second tells these apart, and the third changes nothing. -/
theorem callChain_settles :
    (Std.TransOrd String ∧ LawfulEqOrd String) ∧
    (Partition.Numbers ["b", "a", "b"] [1, 0, 1] ∧
      Partition.groupCount [1, 0, 1] = {k | k ∈ ["b", "a", "b"]}.ncard ∧
      callChain.SettlesInRounds {}) ∧
    (List.range 4).map (callChain.round {}) = [[0, 0, 0], [1, 1, 0], [2, 1, 0], [2, 1, 0]] := by
  have numbers : numbering ["b", "a", "b"] = [1, 0, 1] := by decide
  have settled := numbers_and_settles ["b", "a", "b"] callChain {}
  rw [numbers] at settled
  exact ⟨⟨inferInstance, inferInstance⟩, settled, by decide⟩

end Graph

end GraphCompare
