import GraphCompare.GraphML.Document

/-!
# Reading GraphML

The events of a document are taken one after another. `Reading` is what has been gathered so far:
the contents, the record whose data are being collected, the key whose default is being read, the
key of the data element that is open, and the text inside it. Elements go by their names without
namespace; those without a meaning are passed over, whatever they contain, so that nodes are found
at any depth.

There is one record, one key and one text at a time. A record ends with the end of any node or edge
element, and an element without content is complete at once. The first thing that is wrong ends the
reading: in an event, or where the events stop at a fault of the markup.
-/

namespace GraphCompare.GraphML

open Markup (Event Tag)

/-- The record whose data are being collected. -/
inductive Owner where
  | none
  | node (record : NodeRecord)
  | edge (record : EdgeRecord)

/-- Sets an attribute of the record, if there is one. -/
def Owner.insert (o : Owner) (name : String) (v : OrderedValue) : Owner :=
  match o with
  | none => none
  | node r => node { r with attributes := r.attributes.insert name v }
  | edge r => edge { r with attributes := r.attributes.insert name v }

/-- What has been gathered. -/
structure Reading where
  document : Document
  owner : Owner
  /-- The id of the key element that is open. -/
  key? : Option String
  /-- The key of the data element that is open. -/
  data? : Option String
  /-- Whether a default element is open. -/
  inDefault : Bool
  /-- The text inside the data or default element. -/
  text : List Char

/-- The value of an attribute of a tag, if it has the attribute. -/
def optional (t : Tag) (name : String) : Except ReadError (Option (List Char)) :=
  match t.raw? name.toList with
  | none => .ok none
  | some raw => ((Markup.resolve raw).map some).mapError .reference

/-- The value of an attribute that a tag needs. -/
def required (t : Tag) (name : String) : Except ReadError (List Char) := do
  match ← optional t name with
  | some value => return value
  | none => throw (.content (.missingAttribute (Markup.localName t.name) name.toList))

/-- The id and the declaration of a key. Without a name the attribute is named by the id; without a
domain the key belongs to all elements. -/
def readKey (t : Tag) : Except ReadError (String × KeySpec) := do
  let id ← required t "id"
  let name ← optional t "attr.name"
  let domain ← optional t "for"
  let type ← optional t "attr.type"
  return (String.ofList id,
    { name := String.ofList (name.getD id)
      domain := .ofName (domain.getD "all".toList)
      type := .ofName (type.getD [])
      default? := none })

/-- The record of a node. -/
def readNode (t : Tag) : Except ReadError NodeRecord := do
  return ⟨String.ofList (← required t "id"), .empty⟩

/-- The record of an edge. -/
def readEdge (t : Tag) : Except ReadError EdgeRecord := do
  let source ← required t "source"
  let target ← required t "target"
  return ⟨String.ofList source, String.ofList target, .empty⟩

namespace Document

/-- Declares a key, in place of one with the same id. -/
def addKey (d : Document) (id : String) (k : KeySpec) : Document :=
  { d with keys := d.keys.insert id k }

/-- Takes the record of an owner. -/
def addRecord (d : Document) : Owner → Document
  | .none => d
  | .node r => { d with nodes := d.nodes ++ [r] }
  | .edge r => { d with edges := d.edges ++ [r] }

end Document

namespace Reading

/-- Nothing gathered. -/
def initial : Reading := ⟨.empty, .none, none, none, false, []⟩

variable (s : Reading)

/-- Takes the start of an element. -/
def start (t : Tag) : Except ReadError Reading :=
  match String.ofList (Markup.localName t.name) with
  | "key" => do
    let (id, k) ← readKey t
    return { s with document := s.document.addKey id k, key? := some id }
  | "default" => return { s with inDefault := true, text := [] }
  | "graph" => return { s with document := { s.document with sawGraph := true } }
  | "node" => return { s with owner := .node (← readNode t) }
  | "edge" => return { s with owner := .edge (← readEdge t) }
  | "data" => return { s with data? := some (String.ofList (← required t "key")), text := [] }
  | _ => return s

/-- Takes an element without content. -/
def empty (t : Tag) : Except ReadError Reading :=
  match String.ofList (Markup.localName t.name) with
  | "key" => do
    let (id, k) ← readKey t
    return { s with document := s.document.addKey id k }
  | "graph" => return { s with document := { s.document with sawGraph := true } }
  | "node" => return { s with document := s.document.addRecord (.node (← readNode t)) }
  | "edge" => return { s with document := s.document.addRecord (.edge (← readEdge t)) }
  | _ => return s

/-- Whether text belongs to a value. -/
def wantsText : Bool := s.inDefault || s.data?.isSome

/-- Takes the end of a default element: its text becomes the default of the key that is open. -/
def finishDefault : Except ReadError Reading := do
  let s := { s with inDefault := false }
  match s.key? with
  | none => return s
  | some id =>
    match s.document.keys.get? id with
    | none => return s
    | some k =>
      let v ← (k.type.value s.text).mapError .content
      return { s with document := s.document.addKey id { k with default? := some v } }

/-- Takes the end of a data element: its text becomes a value of the record that is open, with the
name and the type of the key. A key that was not declared is a text named by its id. -/
def finishData : Except ReadError Reading :=
  match s.data? with
  | none => return s
  | some id => do
    let s := { s with data? := none }
    match s.document.keys.get? id with
    | none => return { s with owner := s.owner.insert id (.string (String.ofList s.text)) }
    | some k =>
      let v ← (k.type.value s.text).mapError .content
      return { s with owner := s.owner.insert k.name v }

/-- Takes the end of an element. -/
def finish (name : List Char) : Except ReadError Reading :=
  match String.ofList (Markup.localName name) with
  | "key" => return { s with key? := none }
  | "default" => s.finishDefault
  | "data" => s.finishData
  | "node" | "edge" => return { s with document := s.document.addRecord s.owner, owner := .none }
  | _ => return s

/-- Takes an event. -/
def step : Event → Except ReadError Reading
  | .start t => s.start t
  | .empty t => s.empty t
  | .finish name => s.finish name
  | .text raw =>
    if s.wantsText then do
      let content ← (Markup.resolve raw).mapError .reference
      return { s with text := s.text ++ content }
    else return s
  | .cdata content => return if s.wantsText then { s with text := s.text ++ content } else s
  | .aside => return s

end Reading

/-- The contents of a document. -/
def Document.read (text : String) : Except ReadError Document := do
  let (events, fault) := Markup.read text
  let s ← events.foldlM Reading.step .initial
  match fault with
  | some (position, fault) => throw (.markup position fault)
  | none => return s.document

/-- The graph that a GraphML text describes. -/
def readGraph (text : String) : Except ReadError Graph := do
  (← Document.read text).toGraph

end GraphCompare.GraphML
