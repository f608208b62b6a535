/-!
# Sets and maps kept in order

Several answers of this library are sets or maps that are shown in order: the labels of a graph, the
edge triples of a difference, the attributes of a node, the adjacency of a graph. They are kept as
lists whose elements, or keys, strictly increase, so equal collections are equal lists and the order
of the list is the order that is shown. The order is the one of the type's `Ord`; for text this is
the order of the code points, which is the order of the UTF-8 bytes.

`SortedSet` and `SortedMap` carry the order as a proof. The functions on plain lists below them are
shared by types that cannot hold such a proof, the nested values of `GraphCompare.Value`.
-/

namespace GraphCompare

open Std

universe u v

/-- Pairs are ordered by the first component, then by the second. -/
instance instOrdPair {α : Type u} {β : Type v} [Ord α] [Ord β] : Ord (α × β) := lexOrd

theorem compare_pair {α : Type u} {β : Type v} [Ord α] [Ord β] (a a' : α) (b b' : β) :
    compare (a, b) (a', b') = (compare a a').then (compare b b') :=
  rfl

/-- Every element comes strictly before the elements after it. -/
def Increasing {α : Type u} [Ord α] (l : List α) : Prop :=
  l.Pairwise fun a b => compare a b = .lt

section Set

variable {α : Type u} [Ord α]

/-- Puts an element in its place; an element that is there already stays as it is. -/
def insertInOrder (a : α) : List α → List α
  | [] => [a]
  | b :: rest =>
    match compare a b with
    | .lt => a :: b :: rest
    | .eq => b :: rest
    | .gt => b :: insertInOrder a rest

theorem mem_insertInOrder [LawfulEqOrd α] {a x : α} {l : List α} :
    x ∈ insertInOrder a l ↔ x = a ∨ x ∈ l := by
  induction l with
  | nil => simp [insertInOrder]
  | cons b rest ih =>
    rw [insertInOrder]
    split <;> rename_i h
    · simp
    · rw [LawfulEqOrd.eq_of_compare h]; simp
    · simp only [List.mem_cons, ih]; grind

theorem Increasing.insertInOrder [TransOrd α] [LawfulEqOrd α] {a : α} {l : List α}
    (h : Increasing l) : Increasing (insertInOrder a l) := by
  induction l with
  | nil => simp [GraphCompare.insertInOrder, Increasing]
  | cons b rest ih =>
    have hb := List.pairwise_cons.1 h
    rw [GraphCompare.insertInOrder]
    split <;> rename_i hc
    · refine List.pairwise_cons.2 ⟨fun x hx => ?_, h⟩
      rcases List.mem_cons.1 hx with rfl | hx
      · exact hc
      · exact TransCmp.lt_trans hc (hb.1 x hx)
    · exact h
    · refine List.pairwise_cons.2 ⟨fun x hx => ?_, ih hb.2⟩
      rcases mem_insertInOrder.1 hx with rfl | hx
      · exact OrientedCmp.lt_of_gt hc
      · exact hb.1 x hx

theorem Increasing.nodup [LawfulEqOrd α] {l : List α} (h : Increasing l) : l.Nodup :=
  List.Pairwise.imp (fun hlt heq => by simp [heq] at hlt) h

/-- Increasing lists with the same elements are equal. -/
theorem Increasing.eq_of_mem_iff [TransOrd α] [LawfulEqOrd α] {l m : List α} (hl : Increasing l)
    (hm : Increasing m) (h : ∀ a, a ∈ l ↔ a ∈ m) : l = m := by
  have perm : l.Perm m := (List.perm_ext_iff_of_nodup hl.nodup hm.nodup).2 h
  refine perm.eq_of_pairwise (fun a b _ _ hab hba => ?_) hl hm
  exact absurd (OrientedCmp.gt_of_lt hba) (by simp [hab])

end Set

/-- A finite set, kept in increasing order. -/
structure SortedSet (α : Type u) [Ord α] where
  /-- The elements in increasing order. -/
  toList : List α
  increasing : Increasing toList

namespace SortedSet

variable {α : Type u} [Ord α]

@[ext] theorem ext {s t : SortedSet α} (h : s.toList = t.toList) : s = t := by
  cases s; cases t; cases h; rfl

/-- Sets with the same elements are equal. -/
theorem ext_mem [TransOrd α] [LawfulEqOrd α] {s t : SortedSet α}
    (h : ∀ a, a ∈ s.toList ↔ a ∈ t.toList) : s = t :=
  ext (s.increasing.eq_of_mem_iff t.increasing h)

/-- The set without elements. -/
def empty : SortedSet α := ⟨[], .nil⟩

instance : Inhabited (SortedSet α) := ⟨empty⟩

instance : Membership α (SortedSet α) := ⟨fun s a => a ∈ s.toList⟩

theorem mem_def {s : SortedSet α} {a : α} : a ∈ s ↔ a ∈ s.toList := Iff.rfl

instance [DecidableEq α] (s : SortedSet α) (a : α) : Decidable (a ∈ s) :=
  inferInstanceAs (Decidable (a ∈ s.toList))

/-- Whether there is no element. -/
def isEmpty (s : SortedSet α) : Bool := s.toList.isEmpty

/-- The elements that pass a test. -/
def filter (p : α → Bool) (s : SortedSet α) : SortedSet α :=
  ⟨s.toList.filter p, List.Pairwise.filter p s.increasing⟩

theorem mem_filter {p : α → Bool} {s : SortedSet α} {a : α} : a ∈ s.filter p ↔ a ∈ s ∧ p a :=
  List.mem_filter

variable [TransOrd α] [LawfulEqOrd α]

/-- The set with one element added. -/
def insert (s : SortedSet α) (a : α) : SortedSet α :=
  ⟨insertInOrder a s.toList, s.increasing.insertInOrder⟩

theorem mem_insert {s : SortedSet α} {a x : α} : x ∈ s.insert a ↔ x = a ∨ x ∈ s :=
  mem_insertInOrder

/-- The elements of a list, each once. -/
def ofList (l : List α) : SortedSet α := l.foldr (fun a s => s.insert a) empty

theorem mem_ofList {l : List α} {x : α} : x ∈ ofList l ↔ x ∈ l := by
  induction l with
  | nil => simp [ofList, empty, mem_def]
  | cons a rest ih => simp only [ofList, List.foldr_cons, mem_insert, List.mem_cons]; rw [← ih]; rfl

end SortedSet

/-- Where a key has one value only, it is looked up to it. -/
theorem lookup_eq_some_of_mem {κ : Type u} {ν : Type v} [BEq κ] [LawfulBEq κ] {l : List (κ × ν)}
    {k : κ} {v : ν} (mem : (k, v) ∈ l) (unique : ∀ w, (k, w) ∈ l → w = v) :
    l.lookup k = some v := by
  cases h : l.lookup k with
  | none => simpa using List.lookup_eq_none_iff.1 h _ mem
  | some w =>
    obtain ⟨front, behind, rfl, -⟩ := List.lookup_eq_some_iff.1 h
    rw [unique w (List.mem_append_right _ List.mem_cons_self)]

section Map

variable {κ : Type u} {ν : Type v} [Ord κ]

/-- Sets the entry of a key from its present value, if it has one. -/
def alterInOrder (k : κ) (f : Option ν → ν) : List (κ × ν) → List (κ × ν)
  | [] => [(k, f none)]
  | (k', v) :: rest =>
    match compare k k' with
    | .lt => (k, f none) :: (k', v) :: rest
    | .eq => (k', f (some v)) :: rest
    | .gt => (k', v) :: alterInOrder k f rest

/-- The keys after an entry is set are the keys with that one put in its place. -/
theorem keys_alterInOrder {k : κ} {f : Option ν → ν} {l : List (κ × ν)} :
    (alterInOrder k f l).map Prod.fst = insertInOrder k (l.map Prod.fst) := by
  induction l with
  | nil => rfl
  | cons e rest ih =>
    rw [alterInOrder, List.map_cons, insertInOrder]
    split <;> simp_all

/-- What comes before all keys is no key. -/
theorem lookup_eq_none_of_lt [BEq κ] [LawfulBEq κ] [LawfulEqOrd κ] {k : κ} {l : List (κ × ν)}
    (h : ∀ x ∈ l.map Prod.fst, compare k x = .lt) : l.lookup k = none := by
  refine List.lookup_eq_none_iff.2 fun e he => ?_
  have := h e.1 (List.mem_map_of_mem he)
  simp only [bne_iff_ne, ne_eq]
  rintro rfl
  simp at this

/-- Setting an entry changes the value of its key and no other value. -/
theorem lookup_alterInOrder [TransOrd κ] [LawfulEqOrd κ] [BEq κ] [LawfulBEq κ] {k x : κ}
    {f : Option ν → ν} {l : List (κ × ν)} (h : Increasing (l.map Prod.fst)) :
    (alterInOrder k f l).lookup x = if x == k then some (f (l.lookup k)) else l.lookup x := by
  induction l with
  | nil => simp only [alterInOrder, List.lookup_cons, List.lookup_nil]; split <;> simp_all
  | cons e rest ih =>
    obtain ⟨k', v⟩ := e
    obtain ⟨hlt, hrest⟩ := List.pairwise_cons.1 h
    rw [alterInOrder]
    split <;> rename_i hc
    · have hnone : ((k', v) :: rest).lookup k = none := lookup_eq_none_of_lt fun x hx => by
        rcases List.mem_cons.1 hx with rfl | hx
        · exact hc
        · exact TransCmp.lt_trans hc (hlt x hx)
      rw [hnone, List.lookup_cons]
      split <;> simp_all
    · obtain rfl := LawfulEqOrd.eq_of_compare hc
      simp only [List.lookup_cons, beq_self_eq_true]
      split <;> simp_all
    · have hne : k ≠ k' := by
        rintro rfl
        simp at hc
      simp only [List.lookup_cons, ih hrest]
      grind

/-- In a list with increasing keys an entry is what its key is looked up to. -/
theorem Increasing.mem_iff_lookup [TransOrd κ] [LawfulEqOrd κ] [BEq κ] [LawfulBEq κ]
    {l : List (κ × ν)} (h : Increasing (l.map Prod.fst)) {k : κ} {v : ν} :
    (k, v) ∈ l ↔ l.lookup k = some v := by
  induction l with
  | nil => simp
  | cons e rest ih =>
    obtain ⟨k', v'⟩ := e
    obtain ⟨hlt, hrest⟩ := List.pairwise_cons.1 h
    rw [List.lookup_cons, List.mem_cons, ih hrest, Prod.mk.injEq]
    by_cases hk : k = k'
    · subst hk
      have hnone : rest.lookup k = none := lookup_eq_none_of_lt hlt
      simp [hnone, eq_comm]
    · have hb : (k == k') = false := beq_eq_false_iff_ne.2 hk
      simp [hk, hb]

/-- In a list with increasing keys no entry comes twice. -/
theorem Increasing.nodup_entries [LawfulEqOrd κ] {l : List (κ × ν)}
    (h : Increasing (l.map Prod.fst)) : l.Nodup :=
  (List.pairwise_map.1 h).imp fun hlt heq => by simp [heq] at hlt

/-- Lists with increasing keys that look up every key alike are equal. -/
theorem Increasing.eq_of_lookup [TransOrd κ] [LawfulEqOrd κ] [BEq κ] [LawfulBEq κ]
    {l m : List (κ × ν)} (hl : Increasing (l.map Prod.fst)) (hm : Increasing (m.map Prod.fst))
    (h : ∀ k, l.lookup k = m.lookup k) : l = m := by
  have perm : l.Perm m := by
    refine (List.perm_ext_iff_of_nodup hl.nodup_entries hm.nodup_entries).2 fun e => ?_
    rw [hl.mem_iff_lookup, hm.mem_iff_lookup, h]
  refine perm.eq_of_pairwise (fun a b _ _ hab hba => ?_) (List.pairwise_map.1 hl)
    (List.pairwise_map.1 hm)
  exact absurd (OrientedCmp.gt_of_lt hba) (by simp [hab])

end Map

/-- A finite map, its keys in increasing order. -/
structure SortedMap (κ : Type u) (ν : Type v) [Ord κ] where
  /-- The keys with their values, in the order of the keys. -/
  entries : List (κ × ν)
  increasing : Increasing (entries.map Prod.fst)

namespace SortedMap

variable {κ : Type u} {ν : Type v} [Ord κ]

@[ext] theorem ext {m n : SortedMap κ ν} (h : m.entries = n.entries) : m = n := by
  cases m; cases n; cases h; rfl

/-- The map without entries. -/
def empty : SortedMap κ ν := ⟨[], .nil⟩

instance : Inhabited (SortedMap κ ν) := ⟨empty⟩

/-- The keys in increasing order. -/
def keys (m : SortedMap κ ν) : List κ := m.entries.map Prod.fst

/-- Whether there is no entry. -/
def isEmpty (m : SortedMap κ ν) : Bool := m.entries.isEmpty

/-- The value of a key. -/
def get? [BEq κ] (m : SortedMap κ ν) (k : κ) : Option ν := m.entries.lookup k

variable [TransOrd κ] [LawfulEqOrd κ]

/-- Sets the entry of a key from its present value, if it has one. -/
def alter (m : SortedMap κ ν) (k : κ) (f : Option ν → ν) : SortedMap κ ν :=
  ⟨alterInOrder k f m.entries, by rw [keys_alterInOrder]; exact m.increasing.insertInOrder⟩

/-- Sets the value of a key, in place of the value it had. -/
def insert (m : SortedMap κ ν) (k : κ) (v : ν) : SortedMap κ ν := m.alter k fun _ => v

theorem get?_alter [BEq κ] [LawfulBEq κ] {m : SortedMap κ ν} {k x : κ} {f : Option ν → ν} :
    (m.alter k f).get? x = if x == k then some (f (m.get? k)) else m.get? x :=
  lookup_alterInOrder m.increasing

theorem get?_insert [BEq κ] [LawfulBEq κ] {m : SortedMap κ ν} {k x : κ} {v : ν} :
    (m.insert k v).get? x = if x == k then some v else m.get? x :=
  get?_alter

/-- Maps that look up every key alike are equal. -/
theorem ext_get? [BEq κ] [LawfulBEq κ] {m n : SortedMap κ ν} (h : ∀ k, m.get? k = n.get? k) :
    m = n :=
  ext (m.increasing.eq_of_lookup n.increasing h)

/-- The entries of a list; of two with one key the later one counts. -/
def ofList (l : List (κ × ν)) : SortedMap κ ν := l.foldl (fun m e => m.insert e.1 e.2) empty

/-- Inserting the entries of a list leaves the other keys as they are. -/
theorem get?_foldl_insert_of_notMem [BEq κ] [LawfulBEq κ] {l : List (κ × ν)} {m : SortedMap κ ν}
    {k : κ} (h : k ∉ l.map Prod.fst) :
    (l.foldl (fun m e => m.insert e.1 e.2) m).get? k = m.get? k := by
  induction l generalizing m with
  | nil => rfl
  | cons e rest ih =>
    simp only [List.map_cons, List.mem_cons, not_or] at h
    rw [List.foldl_cons, ih h.2, get?_insert, if_neg (by simpa using h.1)]

/-- An entry of a list in which no key comes twice is an entry of the map. -/
theorem get?_ofList [BEq κ] [LawfulBEq κ] {l : List (κ × ν)} (h : (l.map Prod.fst).Nodup) {k : κ}
    {v : ν} (hm : (k, v) ∈ l) : (ofList l).get? k = some v := by
  suffices ∀ m : SortedMap κ ν, (l.foldl (fun m e => m.insert e.1 e.2) m).get? k = some v from
    this empty
  induction l with
  | nil => cases hm
  | cons e rest ih =>
    intro m
    obtain ⟨he, hrest⟩ := List.nodup_cons.1 h
    rw [List.foldl_cons]
    rcases List.mem_cons.1 hm with rfl | hm
    · rw [get?_foldl_insert_of_notMem he, get?_insert, if_pos (beq_self_eq_true k)]
    · exact ih hrest hm _

/-- The entries of a list in which no key comes twice are the entries of the map. -/
theorem perm_entries_ofList [BEq κ] [LawfulBEq κ] {l : List (κ × ν)} (h : (l.map Prod.fst).Nodup) :
    (ofList l).entries.Perm l := by
  have nodup : l.Nodup := List.Pairwise.of_map Prod.fst (fun _ _ hne heq => hne (heq ▸ rfl)) h
  refine (List.perm_ext_iff_of_nodup (ofList l).increasing.nodup_entries nodup).2 fun (k, v) => ?_
  rw [(ofList l).increasing.mem_iff_lookup]
  constructor
  · intro found
    by_cases hk : k ∈ l.map Prod.fst
    · obtain ⟨⟨k', w⟩, hw, rfl⟩ := List.mem_map.1 hk
      have same : w = v := Option.some.inj ((get?_ofList h hw).symm.trans found)
      exact same ▸ hw
    · have missing : (ofList l).get? k = none := get?_foldl_insert_of_notMem hk
      cases missing.symm.trans found
  · exact get?_ofList h

end SortedMap

end GraphCompare
