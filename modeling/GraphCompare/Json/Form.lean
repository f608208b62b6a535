import GraphCompare.Json.Basic
import GraphCompare.Value

/-!
# Types with a JSON form

`JsonForm` is a type whose values are written as JSON documents and read back. Reading may fail. It
goes by `Limits`: how many brackets deep the document may still go, where a JSON text may nest 127
levels and the level at which a value stands counts.

A structure is written as an object of its fields, in the order of the fields. It is read from an
object, whose members may come in any order and among members of other names, none of its own twice;
or from an array of the fields in order. Which fields may be missing is up to the structure
(`Json.required?`, `Json.orDefault?`), and whether an array may go on behind the last field is up to
the limits.
-/

namespace GraphCompare

/-- What a document may look like. -/
structure Limits where
  /-- How many brackets deep it may go. -/
  room : Nat
  /-- Whether an array may go on behind the last field of a structure. -/
  surplus : Bool

namespace Limits

/-- The limits of a JSON text. -/
def json : Limits := ⟨127, false⟩

/-- The limits of what is inside a bracket. -/
def inner (l : Limits) : Limits := { l with room := l.room - 1 }

end Limits

/-- Types that are written as JSON and read back. -/
class JsonForm (α : Type) where
  toJson : α → Json
  /-- Reads a document within limits. -/
  ofJson? : Limits → Json → Option α

namespace Json

/-- The document of each field, where there is one. An array may be shorter than the fields. -/
def fields? (limits : Limits) (names : List String) : Json → Option (List (Option Json))
  | object members =>
    names.mapM fun name =>
      match members.filter fun m => m.1 == name with
      | [] => some none
      | [m] => some (some m.2)
      | _ => none
  | array items =>
    if items.length ≤ names.length ∨ limits.surplus then
      some ((List.range names.length).map fun i => items[i]?)
    else none
  | _ => none

/-- A field that has to be there. -/
def required? {α : Type} [JsonForm α] (limits : Limits) : Option Json → Option α
  | some j => JsonForm.ofJson? limits j
  | none => none

/-- A field with a default. -/
def orDefault? {α : Type} [JsonForm α] (limits : Limits) (default : α) : Option Json → Option α
  | some j => JsonForm.ofJson? limits j
  | none => some default

end Json

instance : JsonForm String where
  toJson := .string
  ofJson?
    | _, .string s => some s
    | _, _ => none

instance : JsonForm Bool where
  toJson := .bool
  ofJson?
    | _, .bool b => some b
    | _, _ => none

instance : JsonForm UInt64 where
  toJson n := .int n.toNat
  ofJson?
    | _, .int i => if 0 ≤ i ∧ i < UInt64.size then some (.ofNat i.toNat) else none
    | _, _ => none

instance {α : Type} [JsonForm α] : JsonForm (List α) where
  toJson l := .array (l.map JsonForm.toJson)
  ofJson?
    | limits, .array items =>
      if limits.room = 0 then none else items.mapM (JsonForm.ofJson? limits.inner)
    | _, _ => none

namespace Value

mutual

/-- The document of a value. -/
def toJson : Value → Json
  | null => .null
  | bool b => .bool b
  | int i => .int i.toInt
  | float x => .float x
  | string s => .string s
  | list items => .array (itemsToJson items)
  | map entries => .object (entriesToJson entries)

/-- The documents of the items of a list. -/
def itemsToJson : List Value → List Json
  | [] => []
  | v :: rest => v.toJson :: itemsToJson rest

/-- The members of the entries of a map. -/
def entriesToJson : List (String × Value) → List (String × Json)
  | [] => []
  | (k, v) :: rest => (k, v.toJson) :: entriesToJson rest

end

/-- An integer that takes more than 64 bits with its sign is a floating point number. -/
def ofInt (i : Int) : OrderedValue :=
  if Int64.minValue.toInt ≤ i ∧ i ≤ Int64.maxValue.toInt then ⟨.int (.ofInt i), trivial⟩
  else ⟨.float (.ofInt i), trivial⟩

mutual

/-- The value of a document; of two entries with one name the later one counts. -/
def ofJson? : (room : Nat) → Json → Option OrderedValue
  | _, .null => some ⟨null, trivial⟩
  | _, .bool b => some ⟨bool b, trivial⟩
  | _, .int i => some (ofInt i)
  | _, .float x => some ⟨float x, trivial⟩
  | _, .string s => some (.string s)
  | room, .array items =>
    if room = 0 then none else (itemsOfJson? (room - 1) items).map OrderedValue.list
  | room, .object members =>
    if room = 0 then none
    else (entriesOfJson? (room - 1) .empty members).map Attributes.toValue
  | _, .unusable => none

/-- The values of documents. -/
def itemsOfJson? : (room : Nat) → List Json → Option (List OrderedValue)
  | _, [] => some []
  | room, j :: rest =>
    match ofJson? room j with
    | some v => (itemsOfJson? room rest).map (v :: ·)
    | none => none

/-- Adds the values of members to a bag. -/
def entriesOfJson? : (room : Nat) → Attributes → List (String × Json) → Option Attributes
  | _, a, [] => some a
  | room, a, (k, j) :: rest =>
    match ofJson? room j with
    | some v => entriesOfJson? room (a.insert k v) rest
    | none => none

end

end Value

instance : JsonForm OrderedValue where
  toJson v := v.1.toJson
  ofJson? limits := Value.ofJson? limits.room

instance : JsonForm Attributes where
  toJson a := .object (Value.entriesToJson a.entries)
  ofJson?
    | limits, .object members =>
      if limits.room = 0 then none else Value.entriesOfJson? (limits.room - 1) .empty members
    | _, _ => none

instance {ν : Type} [JsonForm ν] : JsonForm (SortedMap String ν) where
  toJson m := .object (m.entries.map fun e => (e.1, JsonForm.toJson e.2))
  ofJson?
    | limits, .object members =>
      if limits.room = 0 then none
      else members.foldlM (fun m e => (JsonForm.ofJson? limits.inner e.2).map (m.insert e.1)) .empty
    | _, _ => none

end GraphCompare
