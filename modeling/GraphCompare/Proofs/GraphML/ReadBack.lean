import Mathlib
import GraphCompare.Proofs.GraphML.Construction
import GraphCompare.Proofs.GraphML.Elements

/-!
# Reading a written document

The document of an outline is read with the contents of the outline (`Outline.read_text`). The proof
follows the document from the inside: an entry sets an attribute of the record that is open, an item
adds its record, a key declares itself with its default, and the graph and the root contain the
rest. Between elements the state of the reader is `outside`: nothing is open but maybe a record. The
text that was read last stays in it and has no effect.
-/

namespace GraphCompare.GraphML

open Markup (Stands Plain tagOf textEvents)

/-! ## Nodes and edges -/

/-- The state between elements, where no text is part of a value. -/
def outside (d : Document) (o : Owner) (text : List Char) : Reading :=
  ⟨d, o, none, none, false, text⟩

/-- What a document knows of a key that has been declared, with a default or without one. -/
def Declaration.specWith (k : Declaration) (default? : Option OrderedValue) : KeySpec :=
  ⟨k.name, k.domain, k.type, default?⟩

/-- What a document knows of a key with its own default. -/
def Declaration.spec (k : Declaration) : KeySpec := k.specWith (k.default?.map Scalar.value)

/-- A document knows the keys that have been declared, and no others. -/
def Document.Declares (d : Document) (keys : List Declaration) : Prop :=
  ∀ id, d.keys.get? id = (declared? keys id).map Declaration.spec

/-- Takes the entries into a record. -/
def Owner.collect (keys : List Declaration) (o : Owner) (data : List Entry) : Owner :=
  data.foldl (fun o e => o.insert (nameOf keys e.key) e.value.value) o

/-- A record takes its entries into its attributes. -/
theorem Owner.collect_of_insert (keys : List Declaration) (record : Attributes → Owner)
    (insert : ∀ a name v, (record a).insert name v = record (a.insert name v)) (data : List Entry)
    (a : Attributes) : (record a).collect keys data =
      record (data.foldl (fun a e => a.insert (nameOf keys e.key) e.value.value) a) := by
  induction data generalizing a with
  | nil => rfl
  | cons e data ih =>
    rw [collect, List.foldl_cons, insert, ← collect, ih, List.foldl_cons]

/-- The text of the last entry, which stays behind it. -/
def lastText (text : List Char) (data : List Entry) : List Char :=
  data.foldl (fun _ e => e.value.text) text

/-- The attributes that entries give. -/
def collected (keys : List Declaration) (data : List Entry) : Attributes :=
  data.foldl (fun a e => a.insert (nameOf keys e.key) e.value.value) .empty

namespace Item

variable (i : Item) (keys : List Declaration)

/-- The record of an item without its entries. -/
def bare : Item → Owner
  | node id _ => .node ⟨id, .empty⟩
  | edge source target _ => .edge ⟨source, target, .empty⟩

/-- The record of an item. -/
def record : Item → Owner
  | node id data => .node ⟨id, collected keys data⟩
  | edge source target data => .edge ⟨source, target, collected keys data⟩

theorem collect_bare : i.bare.collect keys i.data = i.record keys := by
  cases i with
  | node id data =>
    exact Owner.collect_of_insert keys (fun a => .node ⟨id, a⟩) (fun _ _ _ => rfl) data .empty
  | edge source target data =>
    exact Owner.collect_of_insert keys (fun a => .edge ⟨source, target, a⟩) (fun _ _ _ => rfl) data
      .empty

theorem plain_element : Plain i.element.toList := by
  have node : Plain "node".toList := by decide
  have edge : Plain "edge".toList := by decide
  cases i with
  | node id data => exact node
  | edge source target data => exact edge

theorem plain_attributes : ∀ a ∈ i.attributes, Plain a.1.toList := by
  cases i with
  | node id data => exact plain_of_names ["id"] rfl (by decide)
  | edge source target data => exact plain_of_names ["source", "target"] rfl (by decide)

variable (d : Document) (o : Owner) (text : List Char)

theorem read_node (id : NodeId) :
    readNode (tagOf "node".toList [("id", id.toList)]) = .ok ⟨id, .empty⟩ := by
  have plain : ∀ a ∈ [("id", id.toList)], Plain a.1.toList := plain_attributes (.node id [])
  rw [readNode, required_tagOf plain (List.nodup_singleton _) rfl]
  exact congrArg (fun id => Except.ok (NodeRecord.mk id .empty)) String.ofList_toList

theorem read_edge (source target : NodeId) :
    readEdge (tagOf "edge".toList [("source", source.toList), ("target", target.toList)]) =
      .ok ⟨source, target, .empty⟩ := by
  have plain : ∀ a ∈ [("source", source.toList), ("target", target.toList)], Plain a.1.toList :=
    plain_attributes (.edge source target [])
  have nodup : ["source", "target"].Nodup := by decide
  rw [readEdge, required_tagOf plain nodup (x := "source") rfl,
    required_tagOf plain nodup (x := "target") rfl]
  exact congrArg₂ (fun s t => Except.ok (EdgeRecord.mk s t .empty)) String.ofList_toList
    String.ofList_toList

/-- The start of an item opens its record. -/
theorem start_item : (outside d .none text).start (tagOf i.element.toList i.attributes) =
    .ok (outside d i.bare text) := by
  cases i with
  | node id data =>
    have opens : (outside d .none text).start (tagOf "node".toList [("id", id.toList)]) =
        (readNode (tagOf "node".toList [("id", id.toList)])).map
          fun r => outside d (.node r) text := rfl
    exact opens.trans (congrArg _ (read_node id))
  | edge source target data =>
    have opens : (outside d .none text).start
        (tagOf "edge".toList [("source", source.toList), ("target", target.toList)]) =
          (readEdge (tagOf "edge".toList
            [("source", source.toList), ("target", target.toList)])).map
              fun r => outside d (.edge r) text := rfl
    exact opens.trans (congrArg _ (read_edge source target))

/-- A single tag adds the record at once. -/
theorem empty_item : (outside d .none text).empty (tagOf i.element.toList i.attributes) =
    .ok (outside (d.addRecord i.bare) .none text) := by
  cases i with
  | node id data =>
    have opens : (outside d .none text).empty (tagOf "node".toList [("id", id.toList)]) =
        (readNode (tagOf "node".toList [("id", id.toList)])).map
          fun r => outside (d.addRecord (.node r)) .none text := rfl
    exact opens.trans (congrArg _ (read_node id))
  | edge source target data =>
    have opens : (outside d .none text).empty
        (tagOf "edge".toList [("source", source.toList), ("target", target.toList)]) =
          (readEdge (tagOf "edge".toList
            [("source", source.toList), ("target", target.toList)])).map
              fun r => outside (d.addRecord (.edge r)) .none text := rfl
    exact opens.trans (congrArg _ (read_edge source target))

/-- The end of an item adds the record that is open. -/
theorem finish_item : (outside d o text).finish i.element.toList =
    .ok (outside (d.addRecord o) .none text) := by
  have node : (outside d o text).finish "node".toList =
      .ok (outside (d.addRecord o) .none text) := rfl
  have edge : (outside d o text).finish "edge".toList =
      .ok (outside (d.addRecord o) .none text) := rfl
  cases i with
  | node id data => exact node
  | edge source target data => exact edge

end Item

/-- An entry ends as its key was declared, or with its text if it was not. -/
theorem finish_data_eq (d : Document) (o : Owner) (key : String) (text : List Char) :
    Reading.finish ⟨d, o, none, some key, false, text⟩ "data".toList =
      match d.keys.get? key with
      | none => .ok (outside d (o.insert key (.string (String.ofList text))) text)
      | some k => do
        let v ← (k.type.value text).mapError .content
        return outside d (o.insert k.name v) text := rfl

/-- At the end of an entry its text is the value of an attribute. -/
theorem finish_data {keys : List Declaration} {d : Document} (hd : d.Declares keys) (o : Owner)
    {e : Entry} (fits : e.value.type = typeOf keys e.key) :
    Reading.finish ⟨d, o, none, some e.key, false, e.value.text⟩ "data".toList =
      .ok (outside d (o.insert (nameOf keys e.key) e.value.value) e.value.text) := by
  rw [typeOf] at fits
  rw [finish_data_eq, hd e.key, nameOf]
  cases hk : declared? keys e.key with
  | none =>
    rw [hk] at fits
    cases hv : e.value with
    | string s =>
      simp only [Option.map_none, Scalar.text, Scalar.value, String.ofList_toList]
    | int i | boolean b =>
      rw [hv] at fits
      cases fits
  | some k =>
    rw [hk] at fits
    have read := e.value.value_text
    rw [fits] at read
    simp only [Option.map_some, Declaration.spec, Declaration.specWith, read]
    rfl

namespace Layout

variable (layout : Layout) {keys : List Declaration} {d : Document}

/-- An entry sets an attribute of the record. -/
theorem takes_entry (hd : d.Declares keys) (o : Owner) (text : List Char) {e : Entry}
    (fits : e.value.type = typeOf keys e.key) :
    Takes (layout.entry e) (outside d o text)
      (outside d (o.insert (nameOf keys e.key) e.value.value) e.value.text) := by
  have plain : ∀ a ∈ [("key", e.key.toList)], Plain a.1.toList :=
    plain_of_names ["key"] rfl (by decide)
  have key : required (tagOf "data".toList [("key", e.key.toList)]) "key" = .ok e.key.toList :=
    required_tagOf plain (List.nodup_singleton _) rfl
  have start : (outside d o text).start (tagOf "data".toList [("key", e.key.toList)]) =
      .ok { outside d o text with data? := some e.key, text := [] } := by
    have opens : (outside d o text).start (tagOf "data".toList [("key", e.key.toList)]) =
        (do return { outside d o text with
          data? := some (String.ofList
            (← required (tagOf "data".toList [("key", e.key.toList)]) "key"))
          text := [] }) := rfl
    rw [opens, key]
    exact congrArg (fun id => Except.ok { outside d o text with data? := some id, text := [] })
      String.ofList_toList
  exact layout.takes_textElement (by decide) plain rfl start rfl rfl (finish_data hd o fits)

/-- Entries set the attributes of the record, one after the other. -/
theorem takes_entries (hd : d.Declares keys) {data : List Entry}
    (fits : ∀ e ∈ data, e.value.type = typeOf keys e.key) (o : Owner) (text : List Char) :
    Takes (data.flatMap layout.entry) (outside d o text)
      (outside d (o.collect keys data) (lastText text data)) := by
  induction data generalizing o text with
  | nil => exact .nil _
  | cons e data ih =>
    rw [List.flatMap_cons]
    exact (layout.takes_entry hd o text (fits e List.mem_cons_self)).append
      (ih (fun e he => fits e (List.mem_cons_of_mem _ he)) _ _)

/-- Where nothing is written there are no entries. -/
theorem eq_nil_of_flatMap_entry {data : List Entry} (h : data.flatMap layout.entry = []) :
    data = [] := by
  cases data with
  | nil => rfl
  | cons e data =>
    exact absurd (List.append_eq_nil_iff.1 h).1 (layout.textElement_ne_nil _ _ _ _)

/-- An item adds its record. -/
theorem takes_item (hd : d.Declares keys) {i : Item}
    (fits : ∀ e ∈ i.data, e.value.type = typeOf keys e.key) (text : List Char) :
    Takes (layout.item i) (outside d .none text)
      (outside (d.addRecord (i.record keys)) .none (lastText text i.data)) := by
  have entries := layout.takes_entries hd fits i.bare text
  rw [i.collect_bare keys] at entries
  refine layout.takes_element i.plain_element i.plain_attributes rfl (i.start_item d text) entries
    rfl (i.finish_item d _ _) fun hnil => ?_
  have none := layout.eq_nil_of_flatMap_entry hnil
  rw [← i.collect_bare keys, none]
  exact i.empty_item d text

/-- Items add their records, one after the other. -/
theorem takes_items (hd : d.Declares keys) {items : List Item}
    (fits : ∀ i ∈ items, ∀ e ∈ i.data, e.value.type = typeOf keys e.key) (text : List Char) :
    ∃ text', Takes (items.flatMap layout.item) (outside d .none text)
      (outside (items.foldl (fun d i => d.addRecord (i.record keys)) d) .none text') := by
  induction items generalizing d text with
  | nil => exact ⟨text, .nil _⟩
  | cons i items ih =>
    have first := layout.takes_item hd (fits i List.mem_cons_self) text
    have same : (d.addRecord (i.record keys)).Declares keys := by
      cases i <;> exact hd
    obtain ⟨text', rest⟩ := ih same (fun j hj => fits j (List.mem_cons_of_mem _ hj))
      (lastText text i.data)
    exact ⟨text', first.append rest⟩

end Layout

/-! ## Keys -/

namespace Declaration

variable (k : Declaration)

theorem names_sublist :
    (k.attributes.map Prod.fst).Sublist ["id", "for", "attr.type", "attr.name"] := by
  rw [attributes]
  cases k.name? with
  | none => exact List.IsPrefix.sublist ⟨["attr.name"], rfl⟩
  | some name => exact List.Sublist.refl _

theorem plain_attributes : ∀ a ∈ k.attributes, Plain a.1.toList := by
  have plain : ∀ x ∈ ["id", "for", "attr.type", "attr.name"], Plain x.toList := by decide
  exact plain_of_names _ rfl fun x hx => plain x (k.names_sublist.subset hx)

theorem lookup_name : k.attributes.lookup "attr.name" = k.name?.map String.toList := by
  rw [attributes]
  cases k.name? <;> rfl

theorem read_key : readKey (tagOf "key".toList k.attributes) =
    .ok (k.id, k.specWith none) := by
  have plain := k.plain_attributes
  have nodup : (k.attributes.map Prod.fst).Nodup := k.names_sublist.nodup (by decide)
  have name : String.ofList ((k.name?.map String.toList).getD k.id.toList) = k.name := by
    rw [Declaration.name]
    cases k.name? <;> exact String.ofList_toList
  have domain : Domain.ofName k.domain.keyword = k.domain := by
    cases k.domain <;> rfl
  have type : ValueType.ofName k.type.keyword = k.type := by
    cases k.type <;> rfl
  have id : k.attributes.lookup "id" = some k.id.toList := rfl
  rw [readKey, required_tagOf plain nodup id,
    optional_tagOf plain nodup, optional_tagOf plain nodup, optional_tagOf plain nodup,
    k.lookup_name]
  change Except.ok (String.ofList k.id.toList, KeySpec.mk _ (Domain.ofName k.domain.keyword)
    (ValueType.ofName k.type.keyword) none) = _
  rw [name, domain, type, String.ofList_toList]
  rfl

variable (d : Document) (text : List Char)

/-- The start of a key declares it, without a default. -/
theorem start_key : (outside d .none text).start (tagOf "key".toList k.attributes) =
    .ok ⟨d.addKey k.id (k.specWith none), .none, some k.id, none, false, text⟩ := by
  have opens : (outside d .none text).start (tagOf "key".toList k.attributes) =
      (readKey (tagOf "key".toList k.attributes)).map
        fun key => ⟨d.addKey key.1 key.2, .none, some key.1, none, false, text⟩ := rfl
  exact opens.trans (congrArg _ k.read_key)

/-- So does its single tag. -/
theorem empty_key : (outside d .none text).empty (tagOf "key".toList k.attributes) =
    .ok (outside (d.addKey k.id (k.specWith none)) .none text) := by
  have opens : (outside d .none text).empty (tagOf "key".toList k.attributes) =
      (readKey (tagOf "key".toList k.attributes)).map
        fun key => outside (d.addKey key.1 key.2) .none text := rfl
  exact opens.trans (congrArg _ k.read_key)

end Declaration

/-- Declaring a key twice is declaring it as the second time says. -/
theorem Document.addKey_addKey (d : Document) (id : String) (k k' : KeySpec) :
    (d.addKey id k).addKey id k' = d.addKey id k' := by
  have same : (d.keys.insert id k).insert id k' = d.keys.insert id k' := by
    refine SortedMap.ext_get? fun x => ?_
    simp only [SortedMap.get?_insert]
    split <;> rfl
  rw [addKey, addKey, addKey, same]

/-- A default ends as the key that is open was declared, or changes nothing if it was not. -/
theorem finish_default_eq (d : Document) (id : String) (text : List Char) :
    Reading.finish ⟨d, .none, some id, none, true, text⟩ "default".toList =
      match d.keys.get? id with
      | none => .ok ⟨d, .none, some id, none, false, text⟩
      | some spec => do
        let v ← (spec.type.value text).mapError .content
        return ⟨d.addKey id { spec with default? := some v }, .none, some id, none, false, text⟩ :=
  rfl

namespace Layout

variable (layout : Layout) (k : Declaration) (d : Document) (text : List Char)

/-- The default of a key is read into its declaration. -/
theorem takes_default {v : Scalar} (hv : v.type = k.type) :
    Takes (layout.textElement 2 "default" [] v.text)
      ⟨d.addKey k.id (k.specWith none), .none, some k.id, none, false, text⟩
      ⟨d.addKey k.id (k.specWith (some v.value)), .none, some k.id, none, false,
        v.text⟩ := by
  have plain : ∀ a ∈ ([] : List (String × List Char)), Plain a.1.toList := fun _ h => by cases h
  refine layout.takes_textElement (by decide) plain rfl rfl rfl rfl ?_
  have known : (d.addKey k.id (k.specWith none)).keys.get? k.id = some (k.specWith none) := by
    rw [Document.addKey, SortedMap.get?_insert, if_pos (beq_self_eq_true _)]
  have read : k.type.value v.text = .ok v.value := hv ▸ v.value_text
  refine (finish_default_eq _ _ _).trans ?_
  rw [known]
  simp only [Declaration.specWith, read]
  exact congrArg (fun d => Except.ok (Reading.mk d .none (some k.id) none false v.text))
    (d.addKey_addKey k.id _ _)

/-- A key is declared with its default. -/
theorem takes_key (typed : ∀ v, k.default? = some v → v.type = k.type) :
    ∃ text', Takes (layout.key k) (outside d .none text)
      (outside (d.addKey k.id k.spec) .none text') := by
  have plain := k.plain_attributes
  rw [key]
  cases hdefault : k.default? with
  | none =>
    have bare : k.specWith none = k.spec := by
      rw [Declaration.spec, hdefault, Option.map_none]
    have start := k.start_key d text
    have empty := k.empty_key d text
    rw [bare] at start empty
    exact ⟨text, layout.takes_element (by decide) plain rfl start (.nil _) rfl rfl fun _ => empty⟩
  | some v =>
    have whole : k.specWith (some v.value) = k.spec := by
      rw [Declaration.spec, hdefault, Option.map_some]
    have inside := layout.takes_default k d text (typed v hdefault)
    rw [whole] at inside
    refine ⟨v.text, layout.takes_element (by decide) plain rfl (k.start_key d text) inside rfl rfl
      fun hnil => ?_⟩
    exact absurd hnil (layout.textElement_ne_nil _ _ _ _)

/-- Keys are declared, one after the other. -/
theorem takes_keys {keys : List Declaration}
    (typed : ∀ k ∈ keys, ∀ v, k.default? = some v → v.type = k.type) :
    ∃ text', Takes (keys.flatMap layout.key) (outside d .none text)
      (outside (keys.foldl (fun d k => d.addKey k.id k.spec) d) .none text') := by
  induction keys generalizing d text with
  | nil => exact ⟨text, .nil _⟩
  | cons k keys ih =>
    obtain ⟨text', first⟩ := layout.takes_key k d text (typed k List.mem_cons_self)
    obtain ⟨text'', rest⟩ := ih (d.addKey k.id k.spec) text'
      fun l hl => typed l (List.mem_cons_of_mem _ hl)
    exact ⟨text'', first.append rest⟩

end Layout

/-! ## The whole document -/

/-- The document with the keys of an outline. -/
def Outline.declarations (o : Outline) : Document :=
  o.keys.foldl (fun d k => d.addKey k.id k.spec) .empty

/-- The document with all that is in an outline. -/
def Outline.contents (o : Outline) : Document :=
  o.items.foldl (fun d i => d.addRecord (i.record o.keys)) { o.declarations with sawGraph := true }

/-- A document knows the keys that are declared to it and those it has known before. -/
theorem get?_foldl_addKey {keys : List Declaration} (distinct : (keys.map Declaration.id).Nodup)
    (d : Document) (id : String) : (keys.foldl (fun d k => d.addKey k.id k.spec) d).keys.get? id =
      ((declared? keys id).map Declaration.spec).or (d.keys.get? id) := by
  induction keys generalizing d with
  | nil => rfl
  | cons k keys ih =>
    rw [List.map_cons, List.nodup_cons] at distinct
    rw [List.foldl_cons, ih distinct.2, Document.addKey, SortedMap.get?_insert, declared?,
      declared?, List.find?_cons]
    by_cases hid : k.id = id
    · subst hid
      have once : keys.find? (·.id = k.id) = none := by
        rw [List.find?_eq_none]
        intro l hl heq
        exact distinct.1 (of_decide_eq_true heq ▸ List.mem_map_of_mem hl)
      simp [once]
    · simp [hid, Ne.symm hid]

theorem Outline.declares (o : Outline) : o.declarations.Declares o.keys := by
  intro id
  rw [declarations, get?_foldl_addKey o.distinct]
  exact Option.or_none

namespace Layout

variable (layout : Layout)

/-- The graph element of a document adds all records. -/
theorem takes_graph (o : Outline) (text : List Char) :
    ∃ text', Takes (layout.element 1 "graph" [("edgedefault", "directed".toList)]
        (o.items.flatMap layout.item))
      (outside o.declarations .none text) (outside o.contents .none text') := by
  have plain : ∀ a ∈ [("edgedefault", "directed".toList)], Plain a.1.toList :=
    plain_of_names ["edgedefault"] rfl (by decide)
  have known : { o.declarations with sawGraph := true }.Declares o.keys := o.declares
  obtain ⟨text', items⟩ := layout.takes_items known o.fitting text
  cases hitems : o.items with
  | nil =>
    rw [Outline.contents, hitems]
    exact ⟨text, layout.takes_element (by decide) plain rfl rfl (.nil _) rfl rfl fun _ => rfl⟩
  | cons i others =>
    rw [← hitems]
    refine ⟨text', layout.takes_element (by decide) plain rfl rfl items rfl rfl fun hnil => ?_⟩
    rw [hitems, List.flatMap_cons] at hnil
    exact absurd (List.append_eq_nil_iff.1 hnil).1 (layout.element_ne_nil _ _ _ _)

/-- The declaration of XML says nothing about the graph. -/
theorem takes_start (s : Reading) : Takes layout.start s s := by
  rw [start]
  split
  case isTrue =>
    have stands : Stands ('<' :: '?' :: "xml version=\"1.0\" encoding=\"UTF-8\"?".toList ++ ['>'])
        [.aside] := .instruction (by decide) fun _ => by rfl
    exact ⟨[.aside], stands, rfl⟩
  case isFalse => exact .nil s

/-- The root of a document contains the keys and the graph. -/
theorem takes_root (o : Outline) :
    ∃ text', Takes (layout.root o) .initial (outside o.contents .none text') := by
  have plain : ∀ a ∈ [("xmlns", "http://graphml.graphdrawing.org/xmlns".toList)],
      Plain a.1.toList := plain_of_names ["xmlns"] rfl (by decide)
  obtain ⟨text, keys⟩ := layout.takes_keys .empty [] o.typed
  obtain ⟨text', graph⟩ := layout.takes_graph o text
  refine ⟨text', layout.takes_element (by decide) plain rfl rfl (keys.append graph) rfl rfl
    fun hnil => ?_⟩
  exact absurd (List.append_eq_nil_iff.1 hnil).2 (layout.element_ne_nil _ _ _ _)

end Layout

/-- A document starts with a bracket or with white space. -/
theorem Layout.head?_start_root (layout : Layout) (o : Outline) :
    (layout.start ++ layout.root o ++ layout.gap 0).head? ≠ some '\ufeff' := by
  rw [start]
  split
  case isTrue => exact fun h => by cases h
  case isFalse =>
    rw [List.nil_append, root, element]
    cases hgap : layout.gap 0 with
    | nil =>
      split <;> exact fun h => by cases h
    | cons c rest =>
      have blank := layout.blank 0 c (hgap ▸ List.mem_cons_self)
      rintro ⟨⟩
      cases blank

/-- The document of an outline is read with the contents of the outline. -/
theorem Outline.read_text (o : Outline) (layout : Layout) :
    Document.read (o.text layout) = .ok o.contents := by
  obtain ⟨text', root⟩ := layout.takes_root o
  obtain ⟨list, stands, hlist⟩ := (layout.takes_start .initial).append root
  have unmarked := Markup.withoutMark_eq (layout.head?_start_root o)
  have read : Markup.events [] (layout.start ++ layout.root o ++ layout.gap 0) =
      (list ++ textEvents (layout.gap 0), none) := by
    rw [stands, Markup.events_text_end (layout.notMem_gap 0)]
  have whole : Markup.read (o.text layout) = (list ++ textEvents (layout.gap 0), none) := by
    rw [text, Markup.read, String.toList_ofList, unmarked, read]
    rfl
  rw [Document.read_eq_ok, whole]
  refine ⟨rfl, outside o.contents .none text', ?_, rfl⟩
  rw [foldlM_append_of_ok hlist]
  exact foldlM_textEvents_quiet rfl _

end GraphCompare.GraphML
