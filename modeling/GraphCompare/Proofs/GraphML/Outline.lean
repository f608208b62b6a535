import Mathlib
import GraphCompare.GraphML.Document
import GraphCompare.Proofs.Graph.Listing
import GraphCompare.Proofs.Decimal.Numeral
import GraphCompare.Proofs.Markup.Writer

/-!
# What a GraphML document says

An `Outline` is the contents of a document before it is written: declarations of keys, and items,
which are nodes and edges in any order with entries for their attributes. It says which graph is
meant (`Outline.Denotes`) or what is wrong with the items (`Outline.fault?`), both without a word
about markup.

`Outline.text` writes an outline as a document. How it is laid out is left open: a `Layout` chooses
the white space before the tags at each depth, and whether an element without content is one tag or
two.
-/

namespace GraphCompare.GraphML

open Markup (openTag emptyTag closeTag escape)

/-! ## Values -/

/-- A value that an entry or a default gives. -/
inductive Scalar where
  | string (s : String)
  | int (i : Int64)
  | boolean (b : Bool)
deriving DecidableEq

namespace Scalar

/-- The type of the keys that a value fits. -/
def type : Scalar → ValueType
  | string _ => .string
  | int _ => .int
  | boolean _ => .boolean

/-- The value of the attribute. -/
def value : Scalar → OrderedValue
  | string s => .string s
  | int i => ⟨.int i, trivial⟩
  | boolean b => ⟨.bool b, trivial⟩

/-- The text of a value. -/
def text : Scalar → List Char
  | string s => s.toList
  | int i => (Decimal.integerText i.toInt).toList
  | boolean true => "true".toList
  | boolean false => "false".toList

/-- The text of a value is read as the value. -/
theorem value_text (v : Scalar) : v.type.value v.text = .ok v.value := by
  cases v with
  | string s =>
    simp only [type, text, ValueType.value, String.ofList_toList]
    rfl
  | int i =>
    simp only [type, text, ValueType.value, Numeral.int64?_integerText, Option.map_some]
    rfl
  | boolean b =>
    cases b
    · have read : truth? "false".toList = some false := by decide +kernel
      simp only [type, text, ValueType.value, read, Option.map_some]
      rfl
    · have read : truth? "true".toList = some true := by decide +kernel
      simp only [type, text, ValueType.value, read, Option.map_some]
      rfl

end Scalar

/-! ## Outlines -/

/-- The declaration of a key. -/
structure Declaration where
  id : String
  domain : Domain
  type : ValueType
  /-- The name of the attribute, if it is not the id. -/
  name? : Option String
  default? : Option Scalar

/-- The name of the attribute that is declared. -/
def Declaration.name (k : Declaration) : String := k.name?.getD k.id

/-- A key belongs to the nodes, to the edges, or to both. -/
def Declaration.BelongsTo (k : Declaration) (d : Domain) : Prop := k.domain = d ∨ k.domain = .all

instance (k : Declaration) (d : Domain) : Decidable (k.BelongsTo d) :=
  inferInstanceAs (Decidable (_ ∨ _))

/-- A value for the attribute of a key. -/
structure Entry where
  key : String
  value : Scalar

/-- A node or an edge with its entries. -/
inductive Item where
  | node (id : NodeId) (data : List Entry)
  | edge (source target : NodeId) (data : List Entry)

namespace Item

/-- The entries of an item. -/
def data : Item → List Entry
  | node _ data => data
  | edge _ _ data => data

/-- The id and the entries of a node. -/
def node? : Item → Option (NodeId × List Entry)
  | node id data => some (id, data)
  | edge .. => none

/-- The ends and the entries of an edge. -/
def edge? : Item → Option ((NodeId × NodeId) × List Entry)
  | node .. => none
  | edge source target data => some ((source, target), data)

/-- The name of the element of an item. -/
def element : Item → String
  | node .. => "node"
  | edge .. => "edge"

/-- The attributes of the element of an item. -/
def attributes : Item → List (String × List Char)
  | node id _ => [("id", id.toList)]
  | edge source target _ => [("source", source.toList), ("target", target.toList)]

end Item

/-- The declaration of a key among others. -/
def declared? (keys : List Declaration) (id : String) : Option Declaration :=
  keys.find? (·.id = id)

/-- The type that the values of a key have. Without a declaration they are texts. -/
def typeOf (keys : List Declaration) (id : String) : ValueType :=
  match declared? keys id with
  | some k => k.type
  | none => .string

/-- The name of the attribute of a key. Without a declaration it is the id. -/
def nameOf (keys : List Declaration) (id : String) : String :=
  match declared? keys id with
  | some k => k.name
  | none => id

/-- The contents of a document. -/
structure Outline where
  keys : List Declaration
  items : List Item
  distinct : (keys.map Declaration.id).Nodup
  /-- Every default has the type of its key. -/
  typed : ∀ k ∈ keys, ∀ v, k.default? = some v → v.type = k.type
  /-- The defaults of an attribute are the same for all nodes, and the same for all edges. -/
  agreeing : ∀ d, d = .node ∨ d = .edge → ∀ k ∈ keys, ∀ l ∈ keys,
    k.BelongsTo d → l.BelongsTo d → k.name = l.name →
      ∀ v w, k.default? = some v → l.default? = some w → v = w
  /-- Every value has the type of its key. -/
  fitting : ∀ i ∈ items, ∀ e ∈ i.data, e.value.type = typeOf keys e.key

namespace Outline

/-! ## What an outline means -/

variable (o : Outline)

/-- The nodes, in their order. -/
def nodes : List (NodeId × List Entry) := o.items.filterMap Item.node?

/-- The edges, in their order. -/
def edges : List ((NodeId × NodeId) × List Entry) := o.items.filterMap Item.edge?

/-- The default of an attribute of the nodes or of the edges. -/
def default? (d : Domain) (name : String) : Option Scalar :=
  o.keys.findSome? fun k => if k.BelongsTo d ∧ k.name = name then k.default? else none

/-- The value of an attribute: that of the last entry under its name, or else its default. -/
def value? (d : Domain) (data : List Entry) (name : String) : Option Scalar :=
  ((data.filter fun e => nameOf o.keys e.key = name).getLast?.map Entry.value).or
    (o.default? d name)

/-- What is wrong with the items: the first id of a node that comes a second time, or else the first
end of an edge that is no node. -/
def fault? : Option GraphError :=
  let ids := o.nodes.map Prod.fst
  ((firstRepeated? ids).map GraphError.duplicateNode).or
    ((o.edges.findSome? fun e => missingEnd? ids e.1.1 e.1.2).map GraphError.unknownNode)

/-- The graph that is meant: the nodes and the edges in their order, the edges numbered from zero,
every attribute with its value. -/
structure Denotes (g : Graph) : Prop where
  nodes : List.Forall₂ (fun (n : Node) (x : NodeId × List Entry) => n.id = x.1 ∧
    ∀ name, n.attributes.get? name = (o.value? .node x.2 name).map fun v => v.value.1)
    g.nodes o.nodes
  edges : List.Forall₂ (fun (e : Edge) (x : (NodeId × NodeId) × List Entry) =>
    (e.source, e.target) = x.1 ∧
      ∀ name, e.attributes.get? name = (o.value? .edge x.2 name).map fun v => v.value.1)
    g.edges o.edges
  numbers : g.edges.map Edge.id = (List.range o.edges.length).map fun k => ⟨.ofNat k⟩

end Outline

/-! ## Writing -/

/-- How a document is laid out. -/
structure Layout where
  /-- Whether the document starts with the declaration of XML. -/
  prolog : Bool
  /-- Whether an element without content is a single tag. -/
  short : Bool
  /-- The white space in front of the tags at a depth. -/
  gap : ℕ → List Char
  blank : ∀ depth, ∀ c ∈ gap depth, Markup.isBlank c

/-- The name of a type. -/
def ValueType.keyword : ValueType → List Char
  | string => "string".toList
  | int => "int".toList
  | float => "float".toList
  | boolean => "boolean".toList

/-- The name of a domain. -/
def Domain.keyword : Domain → List Char
  | node => "node".toList
  | edge => "edge".toList
  | all => "all".toList
  | other => "port".toList

/-- The attributes of the element of a key. -/
def Declaration.attributes (k : Declaration) : List (String × List Char) :=
  [("id", k.id.toList), ("for", k.domain.keyword), ("attr.type", k.type.keyword)] ++
    (k.name?.map fun name => ("attr.name", name.toList)).toList

namespace Layout

variable (layout : Layout)

/-- An element with other elements inside. -/
def element (depth : ℕ) (name : String) (attributes : List (String × List Char))
    (inside : List Char) : List Char :=
  layout.gap depth ++
    if layout.short ∧ inside = [] then emptyTag name.toList attributes
    else openTag name.toList attributes ++ inside ++ layout.gap depth ++ closeTag name.toList

/-- An element with a text inside. -/
def textElement (depth : ℕ) (name : String) (attributes : List (String × List Char))
    (text : List Char) : List Char :=
  layout.gap depth ++ (openTag name.toList attributes ++ escape text ++ closeTag name.toList)

/-- A key, with its default inside. -/
def key (k : Declaration) : List Char :=
  layout.element 1 "key" k.attributes
    (match k.default? with
      | some v => layout.textElement 2 "default" [] v.text
      | none => [])

/-- An entry. -/
def entry (e : Entry) : List Char :=
  layout.textElement 3 "data" [("key", e.key.toList)] e.value.text

/-- A node or an edge, with its entries inside. -/
def item (i : Item) : List Char :=
  layout.element 2 i.element i.attributes (i.data.flatMap layout.entry)

example : item ⟨false, true, fun _ => [], by simp⟩
    (.node "1" [⟨"d0", .string "a < b"⟩, ⟨"line", .int (-7)⟩]) =
      "<node id=\"1\"><data key=\"d0\">a &lt; b</data><data key=\"line\">-7</data></node>".toList :=
  by decide +kernel

/-- The declaration of XML. -/
def start : List Char :=
  if layout.prolog then "<?xml version=\"1.0\" encoding=\"UTF-8\"?>".toList else []

/-- The root of a document: the keys, and then the items inside a graph. -/
def root (o : Outline) : List Char :=
  layout.element 0 "graphml" [("xmlns", "http://graphml.graphdrawing.org/xmlns".toList)]
    (o.keys.flatMap layout.key ++
      layout.element 1 "graph" [("edgedefault", "directed".toList)] (o.items.flatMap layout.item))

end Layout

/-- The text of a document. -/
def Outline.text (o : Outline) (layout : Layout) : String :=
  String.ofList (layout.start ++ layout.root o ++ layout.gap 0)

end GraphCompare.GraphML
