import Mathlib
import GraphCompare.Edit.Multiset

/-!
# Changes between label multisets

`changes s t` is the closed form of the distance of two multisets of labels: the size of the larger
one less the size of their intersection. The distance that the search computes by striking labels
off a list is this number (`multisetDistance_eq`), and so is the cost of a pair of nodes with its
shortcut for empty sides (`pairCost_eq`).

Two laws carry all that follows. Changes add up (`changes_add_le`), which makes an estimate from
whole multisets a lower bound of a cost charged in parts, and they satisfy the triangle inequality
(`changes_triangle`). What a pair of multisets does not have to pay of its total size is its
`saving`; costs of mappings are compared through savings, because a saving belongs to the pair alone
and does not mention what is left over elsewhere.
-/

namespace GraphCompare

/-- The least number of labels to relabel, drop or add that turns one multiset into another. -/
def changes (s t : Multiset String) : ℕ := max s.card t.card - (s ∩ t).card

/-- What a pair of multisets saves against dropping the one and adding the other. -/
def saving (s t : Multiset String) : ℕ := min s.card t.card + (s ∩ t).card

section Changes

variable {s t u : Multiset String} {l l' : String}

/-- An intersection is no larger than either side. -/
theorem card_inter_le_min (s t : Multiset String) : (s ∩ t).card ≤ min s.card t.card :=
  le_min (Multiset.card_le_card Multiset.inter_le_left)
    (Multiset.card_le_card Multiset.inter_le_right)

/-- Changes and saving share out the labels of both sides. -/
theorem changes_add_saving (s t : Multiset String) :
    changes s t + saving s t = s.card + t.card := by
  have h := card_inter_le_min s t
  unfold changes saving
  omega

theorem changes_comm (s t : Multiset String) : changes s t = changes t s := by
  unfold changes
  rw [max_comm, Multiset.inter_comm]

theorem saving_comm (s t : Multiset String) : saving s t = saving t s := by
  unfold saving
  rw [min_comm, Multiset.inter_comm]

@[simp] theorem changes_zero_right (s : Multiset String) : changes s 0 = s.card := by
  simp [changes]

@[simp] theorem changes_zero_left (t : Multiset String) : changes 0 t = t.card := by
  simp [changes]

@[simp] theorem saving_zero_right (s : Multiset String) : saving s 0 = 0 := by
  simp [saving]

@[simp] theorem saving_zero_left (t : Multiset String) : saving 0 t = 0 := by
  simp [saving]

@[simp] theorem changes_self (s : Multiset String) : changes s s = 0 := by
  have h : s ∩ s = s := inf_idem s
  simp [changes, h]

/-- One label against one label is a change exactly if they differ. -/
theorem changes_singleton (l l' : String) :
    changes {l} {l'} = if l = l' then 0 else 1 := by
  by_cases h : l = l'
  · simp [h]
  · have hi : ({l} : Multiset String) ∩ {l'} = 0 :=
      Multiset.inter_eq_zero_iff_disjoint.2 (by simpa using Ne.symm h)
    simp [changes, hi, h]

/-- Nothing has to be changed exactly if the multisets are equal. -/
theorem changes_eq_zero : changes s t = 0 ↔ s = t := by
  constructor
  · intro h
    have hm := card_inter_le_min s t
    unfold changes at h
    have hs : s ∩ t = s := Multiset.eq_of_le_of_card_le Multiset.inter_le_left (by omega)
    have ht : s ∩ t = t := Multiset.eq_of_le_of_card_le Multiset.inter_le_right (by omega)
    exact hs.symm.trans ht
  · rintro rfl
    exact changes_self s

/-- Changes add up: what two parts need suffices for the whole. -/
theorem changes_add_le (s t s' t' : Multiset String) :
    changes (s + s') (t + t') ≤ changes s t + changes s' t' := by
  have h : s ∩ t + s' ∩ t' ≤ (s + s') ∩ (t + t') :=
    le_inf (add_le_add Multiset.inter_le_left Multiset.inter_le_left)
      (add_le_add Multiset.inter_le_right Multiset.inter_le_right)
  have h := Multiset.card_le_card h
  have h₁ := card_inter_le_min s t
  have h₂ := card_inter_le_min s' t'
  simp only [Multiset.card_add] at h
  simp only [changes, Multiset.card_add]
  omega

/-- Changes of sums over one index list are at most the sum of the changes. -/
theorem changes_sum_le {ι : Type*} (f g : ι → Multiset String) (is : List ι) :
    changes (is.map f).sum (is.map g).sum ≤ (is.map fun i => changes (f i) (g i)).sum := by
  induction is with
  | nil => simp
  | cons i is ih =>
    simp only [List.map_cons, List.sum_cons]
    exact (changes_add_le _ _ _ _).trans (Nat.add_le_add_left ih _)

/-- Savings of two parts are kept in the whole. -/
theorem saving_add_le (s t s' t' : Multiset String) :
    saving s t + saving s' t' ≤ saving (s + s') (t + t') := by
  have hle := changes_add_le s t s' t'
  have hpart := changes_add_saving s t
  have hpart' := changes_add_saving s' t'
  have hwhole := changes_add_saving (s + s') (t + t')
  rw [Multiset.card_add, Multiset.card_add] at hwhole
  omega

/-- What two intersections with one multiset have in common is common to the outer two. -/
theorem card_inter_add_card_inter_le (s t u : Multiset String) :
    (s ∩ t).card + (t ∩ u).card ≤ t.card + (s ∩ u).card := by
  have hu : (s ∩ t) ∪ (t ∩ u) ≤ t := sup_le Multiset.inter_le_right Multiset.inter_le_left
  have hi : (s ∩ t) ∩ (t ∩ u) ≤ s ∩ u :=
    inf_le_inf Multiset.inter_le_left Multiset.inter_le_right
  have h := congrArg Multiset.card (Multiset.union_add_inter (s ∩ t) (t ∩ u))
  simp only [Multiset.card_add] at h
  have := Multiset.card_le_card hu
  have := Multiset.card_le_card hi
  omega

/-- Changing by way of a third multiset is no cheaper. -/
theorem changes_triangle (s t u : Multiset String) :
    changes s u ≤ changes s t + changes t u := by
  have h := card_inter_add_card_inter_le s t u
  have hst := card_inter_le_min s t
  have htu := card_inter_le_min t u
  unfold changes
  omega

/-! ## What a single label adds -/

/-- One more label on one side saves at most two. -/
theorem saving_cons_le (l : String) (s t : Multiset String) :
    saving (l ::ₘ s) t ≤ saving s t + 2 := by
  have h : (l ::ₘ s) ∩ t ≤ l ::ₘ (s ∩ t) := by
    rw [Multiset.cons_inter_distrib]
    exact inf_le_inf le_rfl (Multiset.le_cons_self t l)
  have h := Multiset.card_le_card h
  simp only [Multiset.card_cons] at h
  simp only [saving, Multiset.card_cons]
  omega

/-- One more label saves no less. -/
theorem saving_le_cons (l : String) (s t : Multiset String) :
    saving s t ≤ saving (l ::ₘ s) t := by
  have h := Multiset.card_le_card (inf_le_inf (Multiset.le_cons_self s l) (le_refl t))
  simp only [Multiset.inf_eq_inter] at h
  simp only [saving, Multiset.card_cons]
  omega

/-- Another label in the place of one saves at most one more. -/
theorem saving_relabel_le (l l' : String) (s t : Multiset String) :
    saving (l' ::ₘ s) t ≤ saving (l ::ₘ s) t + 1 := by
  have h : (l' ::ₘ s) ∩ t ≤ l' ::ₘ (s ∩ t) := by
    rw [Multiset.cons_inter_distrib]
    exact inf_le_inf le_rfl (Multiset.le_cons_self t l')
  have h := Multiset.card_le_card h
  have h' := Multiset.card_le_card (inf_le_inf (Multiset.le_cons_self s l) (le_refl t))
  simp only [Multiset.card_cons, Multiset.inf_eq_inter] at h h'
  simp only [saving, Multiset.card_cons]
  omega

/-- A label that the other side has fewer of is not part of the intersection. -/
theorem erase_inter_of_count_lt (h : t.count l < s.count l) : s.erase l ∩ t = s ∩ t := by
  ext x
  rw [Multiset.count_inter, Multiset.count_inter]
  by_cases hx : x = l
  · subst hx
    rw [Multiset.count_erase_self]
    omega
  · rw [Multiset.count_erase_of_ne hx]

/-- A label that the other side has more of enters the intersection. -/
theorem cons_inter_of_count_lt (h : s.count l < t.count l) :
    (l ::ₘ s) ∩ t = l ::ₘ (s ∩ t) := by
  ext x
  rw [Multiset.count_inter, Multiset.count_cons, Multiset.count_cons, Multiset.count_inter]
  split <;> rename_i hx
  · subst hx
    omega
  · rfl

/-- The larger of two multisets has a label that the other has fewer of. -/
theorem exists_count_lt_of_card_lt (h : t.card < s.card) : ∃ l, t.count l < s.count l := by
  by_contra hn
  push Not at hn
  have := Multiset.card_le_card (Multiset.le_iff_count.2 hn)
  omega

/-- Of two different multisets of one size, each has a label that the other has fewer of. -/
theorem exists_count_lt_of_card_eq (h : t.card = s.card) (hne : s ≠ t) :
    ∃ l, t.count l < s.count l := by
  by_contra hn
  push Not at hn
  exact hne (Multiset.eq_of_le_of_card_le (Multiset.le_iff_count.2 hn) h.le)

/-- One more label saves nothing, or it saves what it can against a label of the other side that is
of no use to the rest. -/
theorem saving_cons_cases (l : String) (s t : Multiset String) :
    saving (l ::ₘ s) t = saving s t ∨
      ∃ l' ∈ t, saving (l ::ₘ s) t = saving s (t.erase l') + saving {l} {l'} := by
  by_cases hl : l ∈ t
  · -- an equal label on the other side
    have hcard := Multiset.card_erase_add_one hl
    have hself : ({l} : Multiset String) ∩ {l} = {l} := inf_idem {l}
    refine .inr ⟨l, hl, ?_⟩
    simp only [saving, Multiset.cons_inter_of_pos s hl, Multiset.card_cons, hself,
      Multiset.card_singleton]
    omega
  · have hinter : (l ::ₘ s) ∩ t = s ∩ t := Multiset.cons_inter_of_neg s hl
    by_cases hcard : t.card ≤ s.card
    · refine .inl ?_
      simp only [saving, hinter, Multiset.card_cons]
      omega
    · -- the other side is larger, so the rest leaves one of its labels over
      obtain ⟨l', hl'⟩ := exists_count_lt_of_card_lt (not_le.1 hcard)
      have hmem : l' ∈ t := Multiset.count_pos.1 (by omega)
      have hne : l ≠ l' := by
        rintro rfl
        exact hl hmem
      have herase : s ∩ t.erase l' = s ∩ t := by
        rw [Multiset.inter_comm, erase_inter_of_count_lt hl', Multiset.inter_comm]
      have hsingle : ({l} : Multiset String) ∩ {l'} = 0 :=
        Multiset.inter_eq_zero_iff_disjoint.2 (by simpa using hne.symm)
      have hcard' := Multiset.card_erase_add_one hmem
      refine .inr ⟨l', hmem, ?_⟩
      simp only [saving, hinter, herase, hsingle, Multiset.card_cons, Multiset.card_singleton,
        Multiset.card_zero]
      omega

/-- A label of the larger side can be dropped without loss. -/
theorem saving_erase_of_card_lt (h : t.card < s.card) :
    ∃ l ∈ s, saving (s.erase l) t = saving s t := by
  obtain ⟨l, hl⟩ := exists_count_lt_of_card_lt h
  have hmem : l ∈ s := Multiset.count_pos.1 (by omega)
  refine ⟨l, hmem, ?_⟩
  have hc := Multiset.card_erase_of_mem hmem
  rw [Nat.pred_eq_sub_one] at hc
  simp only [saving, erase_inter_of_count_lt hl]
  omega

/-- A label can be added to the smaller side that saves two. -/
theorem saving_cons_of_card_lt (h : s.card < t.card) :
    ∃ l, saving (l ::ₘ s) t = saving s t + 2 := by
  obtain ⟨l, hl⟩ := exists_count_lt_of_card_lt h
  refine ⟨l, ?_⟩
  simp only [saving, cons_inter_of_count_lt hl, Multiset.card_cons]
  omega

/-- Between different sides of one size a label can be changed so that one more is saved. -/
theorem saving_relabel_of_card_eq (h : s.card = t.card) (hne : s ≠ t) :
    ∃ l ∈ s, ∃ l', saving (l' ::ₘ s.erase l) t = saving s t + 1 := by
  obtain ⟨l, hl⟩ := exists_count_lt_of_card_eq h.symm hne
  obtain ⟨l', hl'⟩ := exists_count_lt_of_card_eq h hne.symm
  have hmem : l ∈ s := Multiset.count_pos.1 (by omega)
  have hll : l' ≠ l := by
    rintro rfl
    omega
  have hcount : (s.erase l).count l' < t.count l' := by
    rwa [Multiset.count_erase_of_ne hll]
  have hc := Multiset.card_erase_add_one hmem
  refine ⟨l, hmem, l', ?_⟩
  simp only [saving, cons_inter_of_count_lt hcount, erase_inter_of_count_lt hl,
    Multiset.card_cons, hc]
  omega

end Changes

/-! ## The distance that the search computes -/

/-- Striking labels off a list counts the intersection. -/
theorem commonCount_eq (xs ys : List String) :
    commonCount xs ys = ((xs : Multiset String) ∩ ys).card := by
  induction xs generalizing ys with
  | nil => simp [commonCount]
  | cons x xs ih =>
    rw [commonCount, ← Multiset.cons_coe]
    by_cases h : x ∈ ys
    · rw [if_pos h, ih, Multiset.cons_inter_of_pos _ (by simpa using h), Multiset.coe_erase,
        Multiset.card_cons]
    · rw [if_neg h, ih, Multiset.cons_inter_of_neg _ (by simpa using h)]

/-- The distance of two label lists is the number of changes between their multisets. -/
theorem multisetDistance_eq (xs ys : List String) : multisetDistance xs ys = changes xs ys := by
  simp [multisetDistance, changes, commonCount_eq]

/-- The cost of a pair of nodes is the number of changes, its shortcut for empty sides included. -/
theorem pairCost_eq (xs ys : List String) : pairCost xs ys = changes xs ys := by
  unfold pairCost
  split <;> rename_i h
  · rcases Bool.or_eq_true _ _ ▸ h with h | h
    all_goals
      rw [List.isEmpty_iff] at h
      simp [h]
  · exact multisetDistance_eq xs ys

end GraphCompare
