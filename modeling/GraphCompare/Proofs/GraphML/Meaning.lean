import Mathlib
import GraphCompare.Proofs.GraphML.Role
import GraphCompare.Proofs.Markup.Forest

/-!
# What elements say

What an element says depends on its tag, on what is inside it, and on the tags in front of it. It
can be told without the reader: the meaning of a key is that of the last tag that declares it
(`meaningIn`), a data element gives a name and a value (`Gives`), and a node or an edge has the
attributes that the data inside it give (`Makes`).

The reader knows the same of keys at any time (`Reading.Knows`). Of the elements it can be said in
three kinds what their tags do: those with records, those with data, and all others, which touch
neither the record nor the data element that is open (`Reading.Alike`).
-/

namespace GraphCompare.GraphML

open Markup (Tag Forest Element)

/-! ## Elements and what is inside them -/

/-- Whether an element has a record. -/
def isRecord (t : Tag) : Bool := (Role.ofName t.name).isRecord

/-- Whether an element is a data element. -/
def isData (t : Tag) : Bool := Role.ofName t.name = .data

/-- The id of the key that a tag declares, with its name and type. -/
def keyMeaning? (t : Tag) : Option (String × String × ValueType) :=
  if Role.ofName t.name = .key then (readKey t).toOption.map fun (id, k) => (id, k.name, k.type)
  else none

/-- What an id means by the tags that have been read: of keys with one id the last one counts. -/
def meaningIn (tags : List Tag) (id : String) : Option (String × ValueType) :=
  (tags.filterMap keyMeaning?).reverse.lookup id

/-- The text of a value behind a piece of a document, where it was `front` before it. References are
resolved, and a default element starts the text anew. -/
def textFrom (front : List Char) : Forest → List Char
  | .nil => front
  | .empty _ rest | .aside rest => textFrom front rest
  | .text raw rest => textFrom (front ++ (Markup.resolve raw).toOption.getD []) rest
  | .cdata content rest => textFrom (front ++ content) rest
  | .element t inside rest =>
    textFrom (textFrom (if Role.ofName t.name = .default then [] else front) inside) rest

/-- What a data element says, by its key and its text. A key may still be declared inside it. -/
def Gives (e : Element) (x : String × OrderedValue) : Prop :=
  ∃ id, required e.tag "key" = .ok id ∧
    entry (meaningIn (e.before ++ e.inside.tags) (String.ofList id)) (String.ofList id)
      (textFrom [] e.inside) = .ok x

/-- The data elements in an element that say something: those with two tags and without a data
element in them. -/
def dataOf (e : Element) : List Element := e.inside.kept isData false e.before

/-- The attributes that the data of an element say; of the values for one the last one counts. -/
def Collects (e : Element) (a : Attributes) : Prop :=
  ∃ entries, List.Forall₂ Gives (dataOf e) entries ∧
    a = entries.foldl (fun a x => a.insert x.1 x.2) .empty

/-- The record that an element declares, with the attributes that its data say. -/
def Makes (e : Element) : Owner → Prop
  | .none => False
  | .node r => Role.ofName e.tag.name = .node ∧ required e.tag "id" = .ok r.id.toList ∧
      Collects e r.attributes
  | .edge r => Role.ofName e.tag.name = .edge ∧ required e.tag "source" = .ok r.source.toList ∧
      required e.tag "target" = .ok r.target.toList ∧ Collects e r.attributes

/-- The record that a tag declares, without attributes. -/
def Declares (t : Tag) : Owner → Prop
  | .none => False
  | .node r => Role.ofName t.name = .node ∧ readNode t = .ok r
  | .edge r => Role.ofName t.name = .edge ∧ readEdge t = .ok r

/-! ## What is known of keys -/

theorem meaningIn_append (tags : List Tag) (t : Tag) (id : String) :
    meaningIn (tags ++ [t]) id =
      match keyMeaning? t with
      | none => meaningIn tags id
      | some (x, meaning) => if id = x then some meaning else meaningIn tags id := by
  rw [meaningIn, List.filterMap_append, List.reverse_append]
  cases h : keyMeaning? t with
  | none => simp [h, meaningIn]
  | some k =>
    obtain ⟨x, meaning⟩ := k
    simp only [List.filterMap_cons, h, List.filterMap_nil, List.reverse_cons, List.reverse_nil,
      List.nil_append, List.cons_append, List.lookup_cons, ← meaningIn.eq_1]
    by_cases same : id = x
    · simp [same]
    · simp [same, beq_false_of_ne same]

namespace Reading

variable {s t : Reading} {tags : List Tag} {tag : Tag}

/-- The keys of a document mean what the tags say that have been read. -/
def Knows (s : Reading) (tags : List Tag) : Prop :=
  ∀ id, s.document.meaning? id = meaningIn tags id

/-- The declaration of a key is known from its tag on. -/
theorem Knows.addKey (hs : s.Knows tags) {id : String} {k : KeySpec}
    (role : Role.ofName tag.name = .key) (h : readKey tag = .ok (id, k)) (x : String) :
    (s.document.addKey id k).meaning? x = meaningIn (tags ++ [tag]) x := by
  have meaning : keyMeaning? tag = some (id, k.name, k.type) := by
    rw [keyMeaning?, if_pos role, h]
    rfl
  rw [Document.meaning?_addKey, meaningIn_append, meaning, hs x]

/-- Other tags say nothing about keys. -/
theorem Knows.other (hs : s.Knows tags) (role : Role.ofName tag.name ≠ .key)
    (same : ∀ id, t.document.meaning? id = s.document.meaning? id) : t.Knows (tags ++ [tag]) := by
  intro id
  rw [same, hs, meaningIn_append, keyMeaning?, if_neg role]

theorem Knows.start (hs : s.Knows tags) (h : s.start tag = .ok t) : t.Knows (tags ++ [tag]) := by
  rw [start_eq] at h
  split at h <;> rename_i role
  case h_1 =>
    obtain ⟨⟨id, k⟩, hk, h⟩ := ok_of_bind h
    cases h
    exact hs.addKey role hk
  case h_4 | h_5 | h_6 =>
    obtain ⟨r, -, h⟩ := ok_of_bind h
    cases h
    exact hs.other (by simp [role]) fun _ => rfl
  case h_2 | h_3 | h_7 =>
    cases h
    exact hs.other (by simp [role]) fun _ => rfl

theorem Knows.empty (hs : s.Knows tags) (h : s.empty tag = .ok t) : t.Knows (tags ++ [tag]) := by
  rw [empty_eq] at h
  split at h <;> rename_i role
  case h_1 =>
    obtain ⟨⟨id, k⟩, hk, h⟩ := ok_of_bind h
    cases h
    exact hs.addKey role hk
  case h_3 | h_4 =>
    obtain ⟨r, -, h⟩ := ok_of_bind h
    cases h
    exact hs.other (by simp [role]) fun _ => rfl
  case h_2 | h_5 | h_6 | h_7 =>
    cases h
    exact hs.other (by simp [role]) fun _ => rfl

theorem Knows.finish {name : List Char} (hs : s.Knows tags) (h : s.finish name = .ok t) :
    t.Knows tags := by
  rw [finish_eq] at h
  split at h
  case h_2 =>
    obtain ⟨keys, -, same⟩ := finishDefault_eq_ok h
    exact fun id => (same id).trans (hs id)
  case h_3 =>
    rw [finishData_eq] at h
    split at h
    case h_1 =>
      cases h
      exact hs
    case h_2 =>
      obtain ⟨x, -, h⟩ := ok_of_bind h
      cases h
      exact hs
  case h_4 | h_5 =>
    cases h
    intro id
    rw [← hs id]
    cases s.owner <;> rfl
  case h_1 | h_6 | h_7 =>
    cases h
    exact hs

end Reading

/-! ## Records -/

namespace Owner

/-- Sets attributes one after the other. -/
def insertAll (o : Owner) (entries : List (String × OrderedValue)) : Owner :=
  entries.foldl (fun o x => o.insert x.1 x.2) o

def node? : Owner → Option NodeRecord
  | node r => some r
  | none | edge _ => Option.none

def edge? : Owner → Option EdgeRecord
  | edge r => some r
  | none | node _ => Option.none

@[simp] theorem insertAll_none (entries : List (String × OrderedValue)) :
    none.insertAll entries = none := by
  induction entries with
  | nil => rfl
  | cons x entries ih => exact ih

/-- Where setting an attribute changes the attributes alone, so does setting several. -/
theorem insertAll_of_insert (record : Attributes → Owner)
    (set : ∀ a name v, (record a).insert name v = record (a.insert name v)) (a : Attributes)
    (entries : List (String × OrderedValue)) : (record a).insertAll entries =
      record (entries.foldl (fun a x => a.insert x.1 x.2) a) := by
  induction entries generalizing a with
  | nil => rfl
  | cons x entries ih => rw [insertAll, List.foldl_cons, set, ← insertAll, ih, List.foldl_cons]

theorem insertAll_append (o : Owner) (entries others : List (String × OrderedValue)) :
    o.insertAll (entries ++ others) = (o.insertAll entries).insertAll others :=
  List.foldl_append

end Owner

theorem readNode_eq_ok {t : Tag} {r : NodeRecord} (h : readNode t = .ok r) :
    required t "id" = .ok r.id.toList ∧ r.attributes = .empty := by
  obtain ⟨id, hid, h⟩ := ok_of_bind h
  cases h
  exact ⟨by rw [hid, String.toList_ofList], rfl⟩

theorem readEdge_eq_ok {t : Tag} {r : EdgeRecord} (h : readEdge t = .ok r) :
    required t "source" = .ok r.source.toList ∧ required t "target" = .ok r.target.toList ∧
      r.attributes = .empty := by
  obtain ⟨source, hsource, h⟩ := ok_of_bind h
  obtain ⟨target, htarget, h⟩ := ok_of_bind h
  cases h
  exact ⟨by rw [hsource, String.toList_ofList], by rw [htarget, String.toList_ofList], rfl⟩

/-- A declared record gets the attributes that are collected. -/
theorem Declares.makes {e : Element} {o : Owner} (h : Declares e.tag o)
    {entries : List (String × OrderedValue)} (given : List.Forall₂ Gives (dataOf e) entries) :
    Makes e (o.insertAll entries) := by
  cases o with
  | none => cases h
  | node r =>
    obtain ⟨role, h⟩ := h
    obtain ⟨id, fresh⟩ := readNode_eq_ok h
    have all := Owner.insertAll_of_insert (fun a => .node { r with attributes := a })
      (fun _ _ _ => rfl) r.attributes entries
    rw [all, fresh]
    exact ⟨role, id, entries, given, rfl⟩
  | edge r =>
    obtain ⟨role, h⟩ := h
    obtain ⟨source, target, fresh⟩ := readEdge_eq_ok h
    have all := Owner.insertAll_of_insert (fun a => .edge { r with attributes := a })
      (fun _ _ _ => rfl) r.attributes entries
    rw [all, fresh]
    exact ⟨role, source, target, entries, given, rfl⟩

theorem nodes_addRecord (d : Document) (o : Owner) :
    (d.addRecord o).nodes = d.nodes ++ [o].filterMap Owner.node? := by
  cases o <;> simp [Document.addRecord, Owner.node?]

theorem edges_addRecord (d : Document) (o : Owner) :
    (d.addRecord o).edges = d.edges ++ [o].filterMap Owner.edge? := by
  cases o <;> simp [Document.addRecord, Owner.edge?]

theorem textFrom_append (front : List Char) (f g : Forest) :
    textFrom front (f.append g) = textFrom (textFrom front f) g := by
  induction f generalizing front <;> simp_all [Forest.append, textFrom]

/-! ## Kinds of elements -/

theorem isData_of_isRecord {t : Tag} (record : isRecord t) : isData t = false := by
  cases data : isData t with
  | false => rfl
  | true =>
    rw [isData, decide_eq_true_eq] at data
    simp [isRecord, data, Role.isRecord] at record

namespace Reading

variable {s t : Reading} {tag : Tag}

theorem wantsText_of_data? (some : s.data? ≠ none) : s.wantsText := by
  cases h : s.data? with
  | none => exact absurd h some
  | some id => simp [wantsText, h]

theorem start_record (record : isRecord tag) (h : s.start tag = .ok t) :
    ∃ o, Declares tag o ∧ t = { s with owner := o } := by
  rw [start_eq] at h
  split at h <;> rename_i role <;> simp [isRecord, role, Role.isRecord] at record
  case h_4 =>
    obtain ⟨r, hr, h⟩ := ok_of_bind h
    cases h
    exact ⟨.node r, ⟨role, hr⟩, rfl⟩
  case h_5 =>
    obtain ⟨r, hr, h⟩ := ok_of_bind h
    cases h
    exact ⟨.edge r, ⟨role, hr⟩, rfl⟩

theorem empty_record (record : isRecord tag) (h : s.empty tag = .ok t) :
    ∃ o, Declares tag o ∧ t = { s with document := s.document.addRecord o } := by
  rw [empty_eq] at h
  split at h <;> rename_i role <;> simp [isRecord, role, Role.isRecord] at record
  case h_3 =>
    obtain ⟨r, hr, h⟩ := ok_of_bind h
    cases h
    exact ⟨.node r, ⟨role, hr⟩, rfl⟩
  case h_4 =>
    obtain ⟨r, hr, h⟩ := ok_of_bind h
    cases h
    exact ⟨.edge r, ⟨role, hr⟩, rfl⟩

theorem finish_record (record : isRecord tag) (h : s.finish tag.name = .ok t) :
    t = { s with document := s.document.addRecord s.owner, owner := .none } := by
  rw [finish_eq] at h
  split at h <;> rename_i role <;> simp [isRecord, role, Role.isRecord] at record
  case h_4 | h_5 =>
    cases h
    rfl

theorem start_data (data : isData tag) (h : s.start tag = .ok t) :
    ∃ id, required tag "key" = .ok id ∧
      t = { s with data? := some (String.ofList id), text := [] } := by
  rw [start_eq] at h
  split at h <;> rename_i role <;> simp [isData, role] at data
  obtain ⟨id, hid, h⟩ := ok_of_bind h
  cases h
  exact ⟨id, hid, rfl⟩

theorem finish_data (data : isData tag) (h : s.finish tag.name = .ok t) :
    s.finishData = .ok t := by
  rw [finish_eq] at h
  split at h <;> rename_i role <;> simp [isData, role] at data
  exact h

/-- The parts of a reading that only records and data elements touch. -/
structure Alike (s t : Reading) : Prop where
  nodes : t.document.nodes = s.document.nodes
  edges : t.document.edges = s.document.edges
  owner : t.owner = s.owner
  data? : t.data? = s.data?

theorem start_plain (record : isRecord tag = false) (data : isData tag = false)
    (h : s.start tag = .ok t) : s.Alike t ∧
      t.text = if Role.ofName tag.name = .default then [] else s.text := by
  rw [start_eq] at h
  split at h <;> rename_i role <;> simp [isRecord, isData, role, Role.isRecord] at record data
  case h_1 =>
    obtain ⟨k, -, h⟩ := ok_of_bind h
    cases h
    exact ⟨⟨rfl, rfl, rfl, rfl⟩, by rw [role]; rfl⟩
  case h_2 | h_3 | h_7 =>
    cases h
    exact ⟨⟨rfl, rfl, rfl, rfl⟩, by rw [role]; rfl⟩

theorem empty_plain (record : isRecord tag = false) (h : s.empty tag = .ok t) :
    s.Alike t ∧ t.text = s.text := by
  rw [empty_eq] at h
  split at h <;> rename_i role <;> simp [isRecord, role, Role.isRecord] at record
  case h_1 =>
    obtain ⟨k, -, h⟩ := ok_of_bind h
    cases h
    exact ⟨⟨rfl, rfl, rfl, rfl⟩, rfl⟩
  case h_2 | h_5 | h_6 | h_7 =>
    cases h
    exact ⟨⟨rfl, rfl, rfl, rfl⟩, rfl⟩

theorem finish_plain (record : isRecord tag = false) (data : isData tag = false)
    (h : s.finish tag.name = .ok t) : s.Alike t ∧ t.text = s.text := by
  rw [finish_eq] at h
  split at h <;> rename_i role <;> simp [isRecord, isData, role, Role.isRecord] at record data
  case h_2 =>
    obtain ⟨keys, rfl, -⟩ := finishDefault_eq_ok h
    exact ⟨⟨rfl, rfl, rfl, rfl⟩, rfl⟩
  case h_1 | h_6 | h_7 =>
    cases h
    exact ⟨⟨rfl, rfl, rfl, rfl⟩, rfl⟩

end Reading

end GraphCompare.GraphML
