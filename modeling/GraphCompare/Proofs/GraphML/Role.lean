import Mathlib
import GraphCompare.GraphML.Reader
import GraphCompare.Proofs.GraphML.Construction
import GraphCompare.Proofs.Markup.Nesting

/-!
# What elements mean to the reader

The reader knows six kinds of elements, by their names without namespace (`Role`). The three tables
of the reader say for each of them what a start tag, the tag of an empty element and an end tag do
(`Reading.start_eq`, `Reading.empty_eq`, `Reading.finish_eq`).

A key or a record that is being read belongs to an element that is open (`Reading.Inside`).
-/

namespace GraphCompare.GraphML

open Markup (Event Tag Open)

/-- What an element means to the reader. -/
inductive Role where
  | key
  | default
  | graph
  | node
  | edge
  | data
  | other
deriving DecidableEq

namespace Role

/-- The role of the elements with a name. -/
def ofName (name : List Char) : Role :=
  match String.ofList (Markup.localName name) with
  | "key" => key
  | "default" => default
  | "graph" => graph
  | "node" => node
  | "edge" => edge
  | "data" => data
  | _ => other

/-- Nodes and edges have records. -/
def isRecord (r : Role) : Bool := r = node || r = edge

end Role

namespace Reading

variable (s : Reading)

theorem start_eq (t : Tag) : s.start t =
    match Role.ofName t.name with
    | .key => do
      let (id, k) ← readKey t
      return { s with document := s.document.addKey id k, key? := some id }
    | .default => return { s with inDefault := true, text := [] }
    | .graph => return { s with document := { s.document with sawGraph := true } }
    | .node => return { s with owner := .node (← readNode t) }
    | .edge => return { s with owner := .edge (← readEdge t) }
    | .data => return { s with data? := some (String.ofList (← required t "key")), text := [] }
    | .other => return s := by
  unfold start Role.ofName
  generalize String.ofList (Markup.localName t.name) = name
  split
  case h_7 => simp [*]
  all_goals rfl

theorem empty_eq (t : Tag) : s.empty t =
    match Role.ofName t.name with
    | .key => do
      let (id, k) ← readKey t
      return { s with document := s.document.addKey id k }
    | .graph => return { s with document := { s.document with sawGraph := true } }
    | .node => return { s with document := s.document.addRecord (.node (← readNode t)) }
    | .edge => return { s with document := s.document.addRecord (.edge (← readEdge t)) }
    | .default | .data | .other => return s := by
  unfold empty Role.ofName
  generalize String.ofList (Markup.localName t.name) = name
  split
  case h_5 =>
    by_cases isDefault : name = "default"
    · subst isDefault
      rfl
    by_cases isData : name = "data"
    · subst isData
      rfl
    simp [*]
  all_goals rfl

theorem finish_eq (name : List Char) : s.finish name =
    match Role.ofName name with
    | .key => return { s with key? := none }
    | .default => s.finishDefault
    | .data => s.finishData
    | .node | .edge => return { s with document := s.document.addRecord s.owner, owner := .none }
    | .graph | .other => return s := by
  unfold finish Role.ofName
  generalize String.ofList (Markup.localName name) = name
  split
  case h_6 =>
    by_cases isGraph : name = "graph"
    · subst isGraph
      rfl
    simp [*]
  all_goals rfl

end Reading

/-! ## Ends of elements with text -/

/-- The name and the type that a document gives to a key. -/
def Document.meaning? (d : Document) (id : String) : Option (String × ValueType) :=
  (d.keys.get? id).map fun k => (k.name, k.type)

theorem Document.meaning?_addKey (d : Document) (id : String) (k : KeySpec) (x : String) :
    (d.addKey id k).meaning? x = if x = id then some (k.name, k.type) else d.meaning? x := by
  simp only [meaning?, addKey, SortedMap.get?_insert, beq_iff_eq]
  split <;> rfl

/-- What a text says under a key with a name and a type. A key without a meaning takes the text as
it is. -/
def entry (meaning? : Option (String × ValueType)) (id : String) (text : List Char) :
    Except ReadError (String × OrderedValue) :=
  match meaning? with
  | none => .ok (id, .string (String.ofList text))
  | some (name, type) => ((type.value text).map fun v => (name, v)).mapError .content

namespace Reading

variable {s t : Reading}

/-- A data element sets one entry, if it is still there at its end. -/
theorem finishData_eq (s : Reading) : s.finishData =
    match s.data? with
    | none => return s
    | some id => do
      let (name, v) ← entry (s.document.meaning? id) id s.text
      return { s with data? := none, owner := s.owner.insert name v } := by
  rw [finishData]
  cases s.data? with
  | none => rfl
  | some id =>
    simp only [Document.meaning?]
    cases s.document.keys.get? id with
    | none => rfl
    | some k =>
      simp only [Option.map_some, entry]
      cases k.type.value s.text <;> rfl

/-- A default element may give a key its default, but no other meaning. -/
theorem finishDefault_eq_ok (h : s.finishDefault = .ok t) : ∃ keys,
    t = { s with document := { s.document with keys := keys }, inDefault := false } ∧
      ∀ id, t.document.meaning? id = s.document.meaning? id := by
  simp only [finishDefault] at h
  split at h
  case h_1 =>
    cases h
    exact ⟨s.document.keys, rfl, fun _ => rfl⟩
  case h_2 open_ _ =>
    split at h
    case h_1 =>
      cases h
      exact ⟨s.document.keys, rfl, fun _ => rfl⟩
    case h_2 k hk =>
      obtain ⟨v, -, h⟩ := ok_of_bind h
      cases h
      refine ⟨_, rfl, fun id => ?_⟩
      rw [Document.meaning?_addKey]
      split
      case isTrue same => rw [same, Document.meaning?, hk, Option.map_some]
      case isFalse => rfl

end Reading

/-! ## What is open -/

/-- What is being read belongs to an element that is open: a key to one of its own kind, and a
record to a node or an edge. -/
structure Reading.Inside (opened : Open) (s : Reading) : Prop where
  key : s.key? ≠ none → ∃ name ∈ opened, Role.ofName name = .key
  owner : s.owner ≠ .none → ∃ name ∈ opened, (Role.ofName name).isRecord

namespace Reading.Inside

variable {opened inside : Open} {s t : Reading}

theorem weaken (hs : s.Inside opened) (name : List Char) : s.Inside (name :: opened) where
  key h := (hs.key h).imp fun _ => And.imp_left (List.mem_cons_of_mem name)
  owner h := (hs.owner h).imp fun _ => And.imp_left (List.mem_cons_of_mem name)

theorem start {tag : Tag} (hs : s.Inside opened) (h : s.start tag = .ok t) :
    t.Inside (tag.name :: opened) := by
  have same := hs.weaken tag.name
  rw [start_eq] at h
  split at h
  case h_1 role =>
    obtain ⟨k, -, h⟩ := ok_of_bind h
    cases h
    exact ⟨fun _ => ⟨tag.name, List.mem_cons_self, role⟩, same.owner⟩
  case h_4 role | h_5 role =>
    obtain ⟨r, -, h⟩ := ok_of_bind h
    cases h
    exact ⟨same.key, fun _ => ⟨tag.name, List.mem_cons_self, by rw [role]; rfl⟩⟩
  case h_6 =>
    obtain ⟨r, -, h⟩ := ok_of_bind h
    cases h
    exact ⟨same.key, same.owner⟩
  case h_2 | h_3 | h_7 =>
    cases h
    exact ⟨same.key, same.owner⟩

theorem empty {tag : Tag} (hs : s.Inside opened) (h : s.empty tag = .ok t) :
    t.Inside opened := by
  rw [empty_eq] at h
  split at h
  case h_1 | h_3 | h_4 =>
    obtain ⟨x, -, h⟩ := ok_of_bind h
    cases h
    exact ⟨hs.key, hs.owner⟩
  case h_2 =>
    cases h
    exact ⟨hs.key, hs.owner⟩
  case h_5 | h_6 | h_7 =>
    cases h
    exact hs

/-- An end tag closes nothing that belongs to an element of another role. -/
theorem finish {name : List Char} (hs : s.Inside (name :: opened)) (h : s.finish name = .ok t) :
    t.Inside opened := by
  have outer : ∀ p : Role → Prop, ¬ p (Role.ofName name) →
      (∃ n ∈ name :: opened, p (Role.ofName n)) → ∃ n ∈ opened, p (Role.ofName n) := by
    rintro p other ⟨n, hn, hp⟩
    rcases List.mem_cons.1 hn with rfl | hn
    · exact absurd hp other
    · exact ⟨n, hn, hp⟩
  have key : Role.ofName name ≠ .key → s.key? ≠ none → ∃ n ∈ opened, Role.ofName n = .key :=
    fun other hkey => outer (· = .key) other (hs.key hkey)
  have owner : ¬ (Role.ofName name).isRecord → s.owner ≠ .none →
      ∃ n ∈ opened, (Role.ofName n).isRecord :=
    fun other howner => outer (·.isRecord) other (hs.owner howner)
  rw [finish_eq] at h
  split at h <;> rename_i role <;> simp only [role] at key owner
  case h_1 =>
    cases h
    exact ⟨fun hkey => absurd rfl hkey, owner nofun⟩
  case h_2 =>
    obtain ⟨keys, rfl, -⟩ := finishDefault_eq_ok h
    exact ⟨key nofun, owner nofun⟩
  case h_3 =>
    rw [finishData_eq] at h
    split at h
    case h_1 =>
      cases h
      exact ⟨key nofun, owner nofun⟩
    case h_2 =>
      obtain ⟨e, -, h⟩ := ok_of_bind h
      cases h
      refine ⟨key nofun, fun howner => owner nofun ?_⟩
      intro none
      simp only [none] at howner
      exact howner rfl
  case h_4 | h_5 =>
    cases h
    exact ⟨key nofun, fun howner => absurd rfl howner⟩
  case h_6 | h_7 =>
    cases h
    exact ⟨key nofun, owner nofun⟩

theorem initial : Reading.initial.Inside [] := ⟨fun h => absurd rfl h, fun h => absurd rfl h⟩

/-- What is being read belongs to an element that is open, event after event. -/
theorem step {e : Event} (hs : s.Inside opened) (he : e.carry opened = some inside)
    (h : s.step e = .ok t) : t.Inside inside := by
  cases e with
  | start tag =>
    cases he
    exact hs.start h
  | empty tag =>
    cases he
    exact hs.empty h
  | finish name =>
    cases opened with
    | nil => cases he
    | cons expected outer =>
      rw [Event.carry] at he
      split at he
      case isTrue same =>
        cases he
        exact Inside.finish (same ▸ hs) h
      case isFalse => cases he
  | text raw =>
    cases he
    rw [Reading.step] at h
    split at h
    case isTrue =>
      obtain ⟨content, -, h⟩ := ok_of_bind h
      cases h
      exact ⟨hs.key, hs.owner⟩
    case isFalse =>
      cases h
      exact hs
  | cdata content =>
    cases he
    cases h
    split <;> exact ⟨hs.key, hs.owner⟩
  | aside =>
    cases he
    cases h
    exact hs

theorem foldlM {list : List Event} (hs : s.Inside opened)
    (he : list.foldlM Event.carry opened = some inside)
    (h : list.foldlM Reading.step s = .ok t) : t.Inside inside := by
  induction list generalizing s opened with
  | nil =>
    cases he
    cases h
    exact hs
  | cons e rest ih =>
    rw [List.foldlM_cons] at he h
    obtain ⟨between, hbetween, he⟩ := Option.bind_eq_some_iff.1 he
    obtain ⟨u, hu, h⟩ := ok_of_bind h
    exact ih (hs.step hbetween hu) he h

end Reading.Inside

end GraphCompare.GraphML
