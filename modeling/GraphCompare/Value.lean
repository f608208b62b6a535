import GraphCompare.Sorted
import GraphCompare.Decimal.Layout

/-!
# Attribute values

The values that nodes and edges carry: nothing, a truth value, a number, a text, a list of values,
or a map of values by name. `Value.text` is the text of a value as labels show it.

The names in a map are distinct and increase. A nested type cannot carry that as a proof, so it is
the predicate `Value.Ordered`; `Attributes` carries it for the whole bag of a node or an edge.
-/

namespace GraphCompare

/-- The value of an attribute. -/
inductive Value where
  | null
  | bool (b : Bool)
  | int (i : Int64)
  | float (x : Binary64)
  | string (s : String)
  | list (items : List Value)
  | map (entries : List (String × Value))
deriving Inhabited

namespace Value

/-- Whether the value is the empty one. -/
def isNull : Value → Bool
  | null => true
  | _ => false

mutual

/-- The text of a value. Nothing is the empty text, also inside a list or a map. -/
def text : Value → String
  | null => ""
  | bool b => if b then "true" else "false"
  | int i => Decimal.integerText i.toInt
  | float x => Decimal.plain.write x
  | string s => s
  | list items => "[" ++ ", ".intercalate (texts items) ++ "]"
  | map entries => "\x7b" ++ ", ".intercalate (entryTexts entries) ++ "\x7d"

/-- The texts of the items of a list. -/
def texts : List Value → List String
  | [] => []
  | v :: rest => v.text :: texts rest

/-- The texts of the entries of a map. -/
def entryTexts : List (String × Value) → List String
  | [] => []
  | (k, v) :: rest => (k ++ ": " ++ v.text) :: entryTexts rest

end

mutual

/-- The names of every map in the value increase. -/
def Ordered : Value → Prop
  | list items => AllOrdered items
  | map entries => Increasing (entries.map Prod.fst) ∧ EntriesOrdered entries
  | _ => True

/-- `Ordered` for every item of a list. -/
def AllOrdered : List Value → Prop
  | [] => True
  | v :: rest => v.Ordered ∧ AllOrdered rest

/-- `Ordered` for the value of every entry. -/
def EntriesOrdered : List (String × Value) → Prop
  | [] => True
  | (_, v) :: rest => v.Ordered ∧ EntriesOrdered rest

end

theorem allOrdered_iff {l : List Value} : AllOrdered l ↔ ∀ v ∈ l, v.Ordered := by
  induction l with
  | nil => simp [AllOrdered]
  | cons v rest ih => simp [AllOrdered, ih]

theorem entriesOrdered_iff {l : List (String × Value)} :
    EntriesOrdered l ↔ ∀ e ∈ l, e.2.Ordered := by
  induction l with
  | nil => simp [EntriesOrdered]
  | cons e rest ih => simp [EntriesOrdered, ih]

/-- Setting an entry to an ordered value keeps the values ordered. -/
theorem EntriesOrdered.alterInOrder {l : List (String × Value)} {k : String}
    {f : Option Value → Value} (hf : ∀ v, (f v).Ordered) (h : EntriesOrdered l) :
    EntriesOrdered (alterInOrder k f l) := by
  induction l with
  | nil => exact ⟨hf _, trivial⟩
  | cons e rest ih =>
    rw [GraphCompare.alterInOrder]
    split
    · exact ⟨hf _, h⟩
    · exact ⟨hf _, h.2⟩
    · exact ⟨h.1, ih h.2⟩

end Value

/-- A value whose maps have increasing names. -/
abbrev OrderedValue := { v : Value // v.Ordered }

/-- The attributes of a node or an edge: values by name, the names increasing, here and inside the
values. -/
structure Attributes where
  entries : List (String × Value)
  ordered : (Value.map entries).Ordered

namespace Attributes

@[ext] theorem ext {a b : Attributes} (h : a.entries = b.entries) : a = b := by
  cases a; cases b; cases h; rfl

/-- No attributes. -/
def empty : Attributes := ⟨[], .nil, trivial⟩

instance : Inhabited Attributes := ⟨empty⟩

/-- The value of an attribute. -/
def get? (a : Attributes) (name : String) : Option Value := a.entries.lookup name

/-- Sets an attribute, in place of the value it had. -/
def insert (a : Attributes) (name : String) (v : OrderedValue) : Attributes where
  entries := alterInOrder name (fun _ => v.1) a.entries
  ordered :=
    ⟨by rw [keys_alterInOrder]; exact a.ordered.1.insertInOrder,
      a.ordered.2.alterInOrder fun _ => v.2⟩

theorem get?_insert {a : Attributes} {name x : String} {v : OrderedValue} :
    (a.insert name v).get? x = if x == name then some v.1 else a.get? x :=
  lookup_alterInOrder a.ordered.1

/-- Sets an attribute that has no value yet. -/
def insertIfNew (a : Attributes) (name : String) (v : OrderedValue) : Attributes :=
  if (a.get? name).isSome then a else a.insert name v

/-- The attributes of a list of names and values; of two with one name the later one counts. -/
def ofList (l : List (String × OrderedValue)) : Attributes :=
  l.foldl (fun a e => a.insert e.1 e.2) empty

/-- The attributes as one value. -/
def toValue (a : Attributes) : OrderedValue := ⟨.map a.entries, a.ordered⟩

end Attributes

namespace OrderedValue

/-- A text as a value. -/
def string (s : String) : OrderedValue := ⟨.string s, trivial⟩

/-- A list of values as a value. -/
def list (items : List OrderedValue) : OrderedValue :=
  ⟨.list (items.map Subtype.val), by
    rw [Value.Ordered, Value.allOrdered_iff]
    intro v hv
    obtain ⟨w, _, rfl⟩ := List.mem_map.1 hv
    exact w.2⟩

end OrderedValue

end GraphCompare
