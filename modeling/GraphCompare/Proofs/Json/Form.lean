import Mathlib
import GraphCompare.Record
import GraphCompare.Proofs.Json.ReadBack

/-!
# Reading back the document of a value

The document of a value without floating point numbers tells which kind of value it is, so the
first kind that fits is the one that was written (`Value.ofJson?_toJson`). The entries of a map are
written by increasing names, so each is put behind those before it when it is read
(`alterInOrder_of_lt`). Reading needs as much room as the document has depth; what is inside a
bracket has one less of both. All of this goes together in `JsonForm.Faithful`, which a list or a
map has if its elements have it.
-/

namespace GraphCompare

/-- An entry under a key behind all others comes last. -/
theorem alterInOrder_of_lt {κ ν : Type} [Ord κ] [Std.TransOrd κ] {k : κ} {f : Option ν → ν}
    {l : List (κ × ν)} (h : ∀ x ∈ l.map Prod.fst, compare x k = .lt) :
    alterInOrder k f l = l ++ [(k, f none)] := by
  induction l with
  | nil => rfl
  | cons e rest ih =>
    rw [List.map_cons, List.forall_mem_cons] at h
    have behind : compare k e.1 = .gt := Std.OrientedCmp.gt_of_lt h.1
    rw [alterInOrder, behind, List.cons_append]
    simp only [ih h.2]

/-! ## Depth -/

namespace Json

mutual

/-- How many brackets deep a document goes. -/
def depth : Json → ℕ
  | array items => itemsDepth items + 1
  | object members => membersDepth members + 1
  | _ => 0

/-- How deep the items of an array go. -/
def itemsDepth : List Json → ℕ
  | [] => 0
  | j :: rest => max j.depth (itemsDepth rest)

/-- How deep the members of an object go. -/
def membersDepth : List (String × Json) → ℕ
  | [] => 0
  | (_, j) :: rest => max j.depth (membersDepth rest)

end

theorem itemsDepth_le_iff {items : List Json} {n : ℕ} :
    itemsDepth items ≤ n ↔ ∀ j ∈ items, j.depth ≤ n := by
  induction items with
  | nil => simp [itemsDepth]
  | cons j rest ih => rw [itemsDepth, Nat.max_le, ih, List.forall_mem_cons]

theorem membersDepth_le_iff {members : List (String × Json)} {n : ℕ} :
    membersDepth members ≤ n ↔ ∀ m ∈ members, m.2.depth ≤ n := by
  induction members with
  | nil => simp [membersDepth]
  | cons m rest ih => rw [membersDepth, Nat.max_le, ih, List.forall_mem_cons]

theorem allExact_iff {items : List Json} : AllExact items ↔ ∀ j ∈ items, j.Exact := by
  induction items with
  | nil => simp [AllExact]
  | cons j rest ih => rw [AllExact, ih, List.forall_mem_cons]

theorem membersExact_iff {members : List (String × Json)} :
    MembersExact members ↔ ∀ m ∈ members, m.2.Exact := by
  induction members with
  | nil => simp [MembersExact]
  | cons m rest ih => rw [MembersExact, ih, List.forall_mem_cons]

end Json

/-! ## Values -/

namespace Value

mutual

/-- Whether there is no floating point number in a value. -/
def FloatFree : Value → Prop
  | float _ => False
  | list items => AllFloatFree items
  | map entries => EntriesFloatFree entries
  | _ => True

/-- `FloatFree` for every item of a list. -/
def AllFloatFree : List Value → Prop
  | [] => True
  | v :: rest => v.FloatFree ∧ AllFloatFree rest

/-- `FloatFree` for the value of every entry. -/
def EntriesFloatFree : List (String × Value) → Prop
  | [] => True
  | (_, v) :: rest => v.FloatFree ∧ EntriesFloatFree rest

end

theorem inRange_toInt (i : Int64) : Json.InRange i.toInt := by
  have low := i.minValue_le_toInt
  have high := i.toInt_le
  have max : Int64.maxValue.toInt < UInt64.size := by decide
  exact ⟨low, by omega⟩

mutual

/-- The document of a value without floating point numbers is read as it is written. -/
theorem exact_toJson : ∀ {v : Value}, v.FloatFree → v.toJson.Exact
  | null, _ | bool _, _ | string _, _ => trivial
  | int i, _ => inRange_toInt i
  | list _, free => allExact_itemsToJson free
  | map _, free => membersExact_entriesToJson free

theorem allExact_itemsToJson : ∀ {items : List Value}, AllFloatFree items →
    Json.AllExact (itemsToJson items)
  | [], _ => trivial
  | _ :: _, free => ⟨exact_toJson free.1, allExact_itemsToJson free.2⟩

theorem membersExact_entriesToJson : ∀ {entries : List (String × Value)},
    EntriesFloatFree entries → Json.MembersExact (entriesToJson entries)
  | [], _ => trivial
  | _ :: _, free => ⟨exact_toJson free.1, membersExact_entriesToJson free.2⟩

end

end Value

/-- A key behind all others is put behind them. -/
theorem SortedMap.entries_insert_of_lt {κ ν : Type} [Ord κ] [Std.TransOrd κ] [Std.LawfulEqOrd κ]
    {m : SortedMap κ ν} {k : κ} {v : ν} (h : ∀ x ∈ m.entries.map Prod.fst, compare x k = .lt) :
    (m.insert k v).entries = m.entries ++ [(k, v)] :=
  alterInOrder_of_lt h

/-- A name behind all others is put behind them. -/
theorem Attributes.entries_insert_of_lt {a : Attributes} {name : String} {v : OrderedValue}
    (h : ∀ x ∈ a.entries.map Prod.fst, compare x name = .lt) :
    (a.insert name v).entries = a.entries ++ [(name, v.1)] :=
  alterInOrder_of_lt h

/-- The next entry is behind all entries before it. -/
theorem Increasing.lt_of_append {κ ν : Type} [Ord κ] {l rest : List (κ × ν)} {e : κ × ν}
    (h : Increasing ((l ++ e :: rest).map Prod.fst)) :
    ∀ x ∈ l.map Prod.fst, compare x e.1 = .lt := by
  intro x hx
  rw [List.map_append, List.map_cons] at h
  exact (List.pairwise_append.1 h).2.2 x hx e.1 List.mem_cons_self

namespace Value

theorem ofInt_toInt (i : Int64) : ofInt i.toInt = ⟨int i, trivial⟩ := by
  rw [ofInt, if_pos ⟨i.minValue_le_toInt, i.toInt_le⟩]
  simp only [Int64.ofInt_toInt]

mutual

/-- A value without floating point numbers is read from its document. -/
theorem ofJson?_toJson {v : Value} (ordered : v.Ordered) (free : v.FloatFree) {room : ℕ}
    (shallow : v.toJson.depth ≤ room) : ofJson? room v.toJson = some ⟨v, ordered⟩ := by
  match v with
  | null | bool b => rw [toJson, ofJson?]
  | int i => rw [toJson, ofJson?, ofInt_toInt]
  | string s =>
    rw [toJson, ofJson?]
    rfl
  | list items =>
    rw [toJson, Json.depth] at shallow
    have inner : Json.itemsDepth (itemsToJson items) ≤ room - 1 := by omega
    obtain ⟨l, read, rfl⟩ := itemsOfJson?_itemsToJson ordered free inner
    rw [toJson, ofJson?, if_neg (by omega), read]
    rfl
  | map entries =>
    rw [toJson, Json.depth] at shallow
    have inner : Json.membersDepth (entriesToJson entries) ≤ room - 1 := by omega
    have read := entriesOfJson?_entriesToJson .empty ordered free inner
    rw [toJson, ofJson?, if_neg (by omega), read]
    rfl

/-- The items of a list are read one after another. -/
theorem itemsOfJson?_itemsToJson {items : List Value} (ordered : AllOrdered items)
    (free : AllFloatFree items) {room : ℕ}
    (shallow : Json.itemsDepth (itemsToJson items) ≤ room) :
    ∃ l, itemsOfJson? room (itemsToJson items) = some l ∧ l.map Subtype.val = items := by
  match items with
  | [] => exact ⟨[], by rw [itemsToJson, itemsOfJson?], rfl⟩
  | v :: rest =>
    rw [itemsToJson, Json.itemsDepth] at shallow
    have first : ofJson? room v.toJson = some ⟨v, ordered.1⟩ :=
      ofJson?_toJson ordered.1 free.1 (by omega)
    obtain ⟨l, others, rfl⟩ :=
      itemsOfJson?_itemsToJson ordered.2 free.2 ((Nat.le_max_right _ _).trans shallow)
    refine ⟨⟨v, ordered.1⟩ :: l, ?_, rfl⟩
    rw [itemsToJson, itemsOfJson?, first, others]
    rfl

/-- The entries of a map are read one after another, each behind those before it. -/
theorem entriesOfJson?_entriesToJson (a : Attributes) {entries : List (String × Value)}
    (ordered : (map (a.entries ++ entries)).Ordered) (free : EntriesFloatFree entries) {room : ℕ}
    (shallow : Json.membersDepth (entriesToJson entries) ≤ room) :
    entriesOfJson? room a (entriesToJson entries) = some ⟨a.entries ++ entries, ordered⟩ := by
  match entries with
  | [] =>
    rw [entriesToJson, entriesOfJson?, Option.some_inj]
    exact Attributes.ext (List.append_nil _).symm
  | (k, v) :: rest =>
    rw [entriesToJson, Json.membersDepth] at shallow
    have behind : ∀ x ∈ a.entries.map Prod.fst, compare x k = .lt := ordered.1.lt_of_append
    have value : v.Ordered :=
      entriesOrdered_iff.1 ordered.2 (k, v) (List.mem_append_right _ List.mem_cons_self)
    have first : ofJson? room v.toJson = some ⟨v, value⟩ := ofJson?_toJson value free.1 (by omega)
    have moved : (a.insert k ⟨v, value⟩).entries ++ rest = a.entries ++ (k, v) :: rest := by
      rw [Attributes.entries_insert_of_lt behind, List.append_assoc]
      rfl
    have others := entriesOfJson?_entriesToJson (a.insert k ⟨v, value⟩) (moved ▸ ordered) free.2
      ((Nat.le_max_right _ _).trans shallow)
    rw [entriesToJson, entriesOfJson?, first]
    exact others.trans (congrArg some (Attributes.ext moved))

end

end Value

/-! ## Types with a JSON form -/

/-- No attribute has a floating point number in its value. -/
def Attributes.FloatFree (a : Attributes) : Prop := Value.EntriesFloatFree a.entries

namespace JsonForm

/-- A value is faithful if the text of its document is read as the document, and the document as the
value wherever there is room for it. -/
structure Faithful {α : Type} [JsonForm α] (a : α) : Prop where
  exact : (toJson a).Exact
  recovered : ∀ limits : Limits, (toJson a).depth ≤ limits.room → ofJson? limits (toJson a) = some a

namespace Faithful

theorem attributes {a : Attributes} (free : a.FloatFree) : Faithful a where
  exact := Value.membersExact_entriesToJson free
  recovered limits shallow := by
    have depth : Json.membersDepth (Value.entriesToJson a.entries) + 1 ≤ limits.room := shallow
    have read := Value.entriesOfJson?_entriesToJson .empty a.ordered free
      (Nat.le_sub_one_of_lt depth)
    have room : limits.room ≠ 0 := by omega
    exact (if_neg room).trans read

variable {α : Type} [JsonForm α]

theorem list {l : List α} (h : ∀ a ∈ l, Faithful a) : Faithful l where
  exact := by
    refine Json.allExact_iff.2 fun j hj => ?_
    obtain ⟨a, ha, rfl⟩ := List.mem_map.1 hj
    exact (h a ha).exact
  recovered limits shallow := by
    have depth : Json.itemsDepth (l.map toJson) + 1 ≤ limits.room := shallow
    have room : limits.room ≠ 0 := by omega
    have inner := Json.itemsDepth_le_iff.1 (Nat.le_sub_one_of_lt depth)
    have each : ∀ a ∈ l, ofJson? limits.inner (toJson a) = some a := fun a ha =>
      (h a ha).recovered limits.inner (inner _ (List.mem_map_of_mem ha))
    exact (if_neg room).trans (Json.mapM_map_eq_some each)

/-- Entries that are read by increasing keys are put behind each other. -/
theorem foldlM_insert {limits : Limits} {entries : List (String × α)}
    (h : ∀ e ∈ entries, ofJson? limits (toJson e.2) = some e.2) (m : SortedMap String α)
    (increasing : Increasing ((m.entries ++ entries).map Prod.fst)) :
    (entries.map fun e => (e.1, toJson e.2)).foldlM
      (fun m e => (ofJson? limits e.2).map (m.insert e.1)) m =
        some ⟨m.entries ++ entries, increasing⟩ := by
  induction entries generalizing m with
  | nil => exact congrArg some (SortedMap.ext (List.append_nil _).symm)
  | cons e rest ih =>
    rw [List.forall_mem_cons] at h
    have behind : ∀ x ∈ m.entries.map Prod.fst, compare x e.1 = .lt := increasing.lt_of_append
    have moved : (m.insert e.1 e.2).entries ++ rest = m.entries ++ e :: rest := by
      rw [SortedMap.entries_insert_of_lt behind, List.append_assoc]
      rfl
    have others := ih h.2 (m.insert e.1 e.2) (moved ▸ increasing)
    rw [List.map_cons, List.foldlM_cons, h.1]
    exact others.trans (congrArg some (SortedMap.ext moved))

theorem map {m : SortedMap String α} (h : ∀ e ∈ m.entries, Faithful e.2) : Faithful m where
  exact := by
    refine Json.membersExact_iff.2 fun j hj => ?_
    obtain ⟨e, he, rfl⟩ := List.mem_map.1 hj
    exact (h e he).exact
  recovered limits shallow := by
    have depth : Json.membersDepth (m.entries.map fun e => (e.1, toJson e.2)) + 1 ≤ limits.room :=
      shallow
    have room : limits.room ≠ 0 := by omega
    have inner := Json.membersDepth_le_iff.1 (Nat.le_sub_one_of_lt depth)
    have each : ∀ e ∈ m.entries, ofJson? limits.inner (toJson e.2) = some e.2 := fun e he =>
      (h e he).recovered limits.inner (inner _ (List.mem_map_of_mem he))
    exact (if_neg room).trans (foldlM_insert each .empty m.increasing)

/-- A faithful value is read from the text of its document, if that does not nest too deep. -/
theorem readRecord?_pretty {a : α} (h : Faithful a) (shallow : (toJson a).depth ≤ 127) :
    readRecord? α (toJson a).pretty = some a := by
  rw [readRecord?, Json.read?_pretty h.exact]
  exact h.recovered .json shallow

/-- So it is from its text without white space. -/
theorem readRecord?_recordText {a : α} (h : Faithful a) (shallow : (toJson a).depth ≤ 127) :
    readRecord? α (recordText a) = some a := by
  rw [readRecord?, recordText, Json.read?_compact h.exact]
  exact h.recovered .json shallow

end Faithful

end JsonForm

end GraphCompare
