import Mathlib
import GraphCompare.Summary.Partition

/-!
# Numbering keys

`numbering` gives every key its place among the distinct keys in order. Equal keys get equal numbers
and different keys different ones (`groupOf_numbering_inj`), smaller keys get smaller numbers
(`compare_groupOf_numbering`), and the numbers that occur are all those below the number of distinct
keys (`mem_numbering`). So a numbering has as many groups as there are distinct keys, and none of
them is empty (`mem_numbering_iff`).

`Partition.Numbers` says this of any list of numbers for a list of keys, without a word on how the
numbers are found. Only one list of numbers is like that (`Partition.Numbers.unique`): no number is
greater than it has to be, since all the numbers before it stand for smaller keys.
-/

namespace GraphCompare

open Std

section
variable {κ : Type} [Ord κ] [LawfulEqOrd κ]

/-- The place of a key in a list. -/
def place (distinct : List κ) (k : κ) : ℕ := distinct.findIdx fun d => compare d k == .eq

/-- The element at the place of a key that is in the list is the key. -/
theorem getElem_place {distinct : List κ} {k : κ} (h : k ∈ distinct) :
    ∃ hlt : place distinct k < distinct.length, distinct[place distinct k] = k := by
  have hlt : place distinct k < distinct.length :=
    List.findIdx_lt_length_of_exists ⟨k, h, by simp⟩
  refine ⟨hlt, ?_⟩
  have hp := List.findIdx_getElem (p := fun d => compare d k == .eq) (w := hlt)
  exact LawfulEqOrd.eq_of_compare (beq_iff_eq.1 hp)

/-- Keys of a list that have one place are equal. -/
theorem place_inj {distinct : List κ} {k k' : κ} (h : k ∈ distinct) (h' : k' ∈ distinct) :
    place distinct k = place distinct k' ↔ k = k' := by
  constructor
  · intro heq
    obtain ⟨_, hk⟩ := getElem_place h
    obtain ⟨_, hk'⟩ := getElem_place h'
    rw [← hk, ← hk']
    simp only [heq]
  · rintro rfl
    rfl

/-- Every index of a list without repetition is the place of the element there. -/
theorem place_getElem {distinct : List κ} (nodup : distinct.Nodup) {i : ℕ}
    (hi : i < distinct.length) : place distinct distinct[i] = i := by
  obtain ⟨hlt, hget⟩ := getElem_place (List.getElem_mem hi)
  exact nodup.getElem_inj_iff.1 hget

variable [TransOrd κ]

/-- Keys in order have places in the same order. -/
theorem compare_place {distinct : List κ} (increasing : Increasing distinct) {k k' : κ}
    (h : k ∈ distinct) (h' : k' ∈ distinct) :
    compare (place distinct k) (place distinct k') = compare k k' := by
  obtain ⟨hlt, hk⟩ := getElem_place h
  obtain ⟨hlt', hk'⟩ := getElem_place h'
  have later := List.pairwise_iff_getElem.1 increasing
  rcases Nat.lt_trichotomy (place distinct k) (place distinct k') with hp | hp | hp
  · have before := later _ _ hlt hlt' hp
    rw [hk, hk'] at before
    rw [before, Nat.compare_eq_lt.2 hp]
  · obtain rfl := (place_inj h h').1 hp
    simp
  · have before := later _ _ hlt' hlt hp
    rw [hk, hk'] at before
    rw [OrientedCmp.gt_of_lt before, Nat.compare_eq_gt.2 hp]

/-- The distinct keys, in order. -/
def distinctKeys (keys : List κ) : List κ := (SortedSet.ofList keys).toList

theorem mem_distinctKeys {keys : List κ} {k : κ} : k ∈ distinctKeys keys ↔ k ∈ keys :=
  SortedSet.mem_ofList

theorem nodup_distinctKeys (keys : List κ) : (distinctKeys keys).Nodup :=
  (SortedSet.ofList keys).increasing.nodup

/-- The list of the distinct keys is as long as there are any. -/
theorem length_distinctKeys (keys : List κ) :
    (distinctKeys keys).length = {k | k ∈ keys}.ncard := by
  classical
  have same : {k | k ∈ keys} = ((distinctKeys keys).toFinset : Set κ) := by
    ext k
    simp [mem_distinctKeys]
  rw [same, Set.ncard_coe_finset, List.toFinset_card_of_nodup (nodup_distinctKeys keys)]

/-- A numbering gives every key its place among the distinct keys. -/
theorem numbering_eq (keys : List κ) : numbering keys = keys.map (place (distinctKeys keys)) := rfl

@[simp] theorem length_numbering (keys : List κ) : (numbering keys).length = keys.length :=
  List.length_map _

theorem groupOf_numbering {keys : List κ} {i : ℕ} (hi : i < keys.length) :
    Partition.groupOf (numbering keys) i = place (distinctKeys keys) keys[i] := by
  simp [Partition.groupOf, numbering_eq, hi]

/-- Keys have one number exactly if they are equal. -/
theorem groupOf_numbering_inj {keys : List κ} {i j : ℕ} (hi : i < keys.length)
    (hj : j < keys.length) :
    Partition.groupOf (numbering keys) i = Partition.groupOf (numbering keys) j ↔
      keys[i] = keys[j] := by
  rw [groupOf_numbering hi, groupOf_numbering hj]
  exact place_inj (mem_distinctKeys.2 (List.getElem_mem hi))
    (mem_distinctKeys.2 (List.getElem_mem hj))

/-- Numbers compare like the keys that they number. -/
theorem compare_groupOf_numbering {keys : List κ} {i j : ℕ} (hi : i < keys.length)
    (hj : j < keys.length) :
    compare (Partition.groupOf (numbering keys) i) (Partition.groupOf (numbering keys) j) =
      compare keys[i] keys[j] := by
  rw [groupOf_numbering hi, groupOf_numbering hj]
  exact compare_place (SortedSet.ofList keys).increasing (mem_distinctKeys.2 (List.getElem_mem hi))
    (mem_distinctKeys.2 (List.getElem_mem hj))

/-- The numbers that occur are those below the number of distinct keys. -/
theorem mem_numbering {keys : List κ} {x : ℕ} :
    x ∈ numbering keys ↔ x < (distinctKeys keys).length := by
  rw [numbering_eq, List.mem_map]
  constructor
  · rintro ⟨k, hk, rfl⟩
    obtain ⟨hlt, _⟩ := getElem_place (mem_distinctKeys.2 hk)
    exact hlt
  · intro hx
    refine ⟨(distinctKeys keys)[x], mem_distinctKeys.1 (List.getElem_mem hx), ?_⟩
    exact place_getElem (nodup_distinctKeys keys) hx

end

namespace Partition

/-- The groups of a partition are counted by the distinct numbers in it. -/
theorem groupCount_eq_card (p : Partition) : p.groupCount = p.toFinset.card := by
  have heq : p.toFinset = (distinctKeys p).toFinset := by
    ext x
    simp [mem_distinctKeys]
  rw [heq, List.toFinset_card_of_nodup (nodup_distinctKeys p)]
  rfl

/-- There are no more groups than nodes. -/
theorem groupCount_le_length (p : Partition) : p.groupCount ≤ p.length := by
  rw [groupCount_eq_card]
  exact List.toFinset_card_le p

/-- Where the numbers are those below a bound, the bound is the number of groups. -/
theorem groupCount_eq_of_mem_iff {p : Partition} {n : ℕ} (h : ∀ x, x ∈ p ↔ x < n) :
    p.groupCount = n := by
  have numbers : p.toFinset = Finset.range n := by
    ext x
    simp [h]
  rw [groupCount_eq_card, numbers, Finset.card_range]

theorem groupOf_eq_getElem {p : Partition} {i : ℕ} (h : i < p.length) : p.groupOf i = p[i] := by
  simp [groupOf, h]

end Partition

/-- A numbering has as many groups as there are distinct keys, each with a member. -/
theorem mem_numbering_iff {κ : Type} [Ord κ] [TransOrd κ] [LawfulEqOrd κ] {keys : List κ} {x : ℕ} :
    x ∈ numbering keys ↔ x < Partition.groupCount (numbering keys) := by
  rw [Partition.groupCount_eq_of_mem_iff fun _ => mem_numbering, mem_numbering]

/-! ## Numbers for keys -/

namespace Partition

variable {κ : Type} [Ord κ] {keys : List κ} {p q : Partition}

/-- Numbers that stand for keys: they compare like the keys, and those that occur are all below the
number of distinct keys, without a gap. -/
structure Numbers (keys : List κ) (p : Partition) : Prop where
  length : p.length = keys.length
  order : ∀ i j (hi : i < keys.length) (hj : j < keys.length),
    compare (p.groupOf i) (p.groupOf j) = compare keys[i] keys[j]
  mem_iff : ∀ x, x ∈ p ↔ x < {k | k ∈ keys}.ncard

/-- **A numbering numbers its keys.** -/
theorem numbers_numbering [TransOrd κ] [LawfulEqOrd κ] (keys : List κ) :
    Numbers keys (numbering keys) where
  length := length_numbering keys
  order _ _ hi hj := compare_groupOf_numbering hi hj
  mem_iff x := by rw [mem_numbering, length_distinctKeys]

namespace Numbers

/-- There are as many groups as distinct keys. -/
theorem groupCount (h : Numbers keys p) : p.groupCount = {k | k ∈ keys}.ncard :=
  groupCount_eq_of_mem_iff h.mem_iff

/-- Numbers without a gap are the least that compare like the keys: the number before one stands for
a smaller key. -/
theorem groupOf_le (h : Numbers keys p) (h' : Numbers keys q) {i : ℕ} (hi : i < keys.length) :
    p.groupOf i ≤ q.groupOf i := by
  induction hx : p.groupOf i generalizing i with
  | zero => exact Nat.zero_le _
  | succ x ih =>
    have occurs : p.groupOf i ∈ p := by
      rw [groupOf_eq_getElem (hi.trans_eq h.length.symm)]
      exact List.getElem_mem _
    have below := (h.mem_iff _).1 occurs
    have before : x ∈ p := (h.mem_iff x).2 (by omega)
    obtain ⟨j, hj, hget⟩ := List.getElem_of_mem before
    rw [← groupOf_eq_getElem hj] at hget
    rw [h.length] at hj
    have smaller : compare (q.groupOf j) (q.groupOf i) = .lt := by
      rw [h'.order j i hj hi, ← h.order j i hj hi]
      exact Nat.compare_eq_lt.2 (by omega)
    have hle := ih hj hget
    have hlt := Nat.compare_eq_lt.1 smaller
    omega

/-- **Keys can be numbered in one way only.** -/
theorem unique (h : Numbers keys p) (h' : Numbers keys q) : p = q := by
  refine List.ext_getElem (h.length.trans h'.length.symm) fun i hi hi' => ?_
  have hkeys : i < keys.length := hi.trans_eq h.length
  rw [← groupOf_eq_getElem hi, ← groupOf_eq_getElem hi']
  exact Nat.le_antisymm (h.groupOf_le h' hkeys) (h'.groupOf_le h hkeys)

end Numbers

end Partition

end GraphCompare
