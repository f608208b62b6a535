import GraphCompare.Json.Form
import GraphCompare.Json.Printer
import GraphCompare.Json.Reader
import GraphCompare.Graph.Adjacency
import GraphCompare.Settings.Basic

/-!
# Records

The JSON forms of the types that are stored outside a graph: ids, nodes, edges, triples and
settings, and of what the operations answer with: adjacencies, hash histories and edit paths. A
node, an edge and a triple need all their fields; settings take the default for a field that is
missing.
-/

namespace GraphCompare

open JsonForm (toJson)

instance : JsonForm EdgeId where
  toJson e := toJson e.number
  ofJson? limits j := (JsonForm.ofJson? limits j).map EdgeId.mk

instance : JsonForm Node where
  toJson n := .object [("id", toJson n.id), ("attributes", toJson n.attributes)]
  ofJson? limits j := do
    let [id, attributes] ← j.fields? limits ["id", "attributes"] | none
    return ⟨← Json.required? limits.inner id, ← Json.required? limits.inner attributes⟩

instance : JsonForm Edge where
  toJson e := .object [("id", toJson e.id), ("source", toJson e.source),
    ("target", toJson e.target), ("attributes", toJson e.attributes)]
  ofJson? limits j := do
    let [id, source, target, attributes] ←
      j.fields? limits ["id", "source", "target", "attributes"] | none
    return ⟨← Json.required? limits.inner id, ← Json.required? limits.inner source,
      ← Json.required? limits.inner target, ← Json.required? limits.inner attributes⟩

instance : JsonForm EdgeTriple where
  toJson t := .object [("source", toJson t.source), ("target", toJson t.target),
    ("label", toJson t.label)]
  ofJson? limits j := do
    let [source, target, label] ← j.fields? limits ["source", "target", "label"] | none
    return ⟨← Json.required? limits.inner source, ← Json.required? limits.inner target,
      ← Json.required? limits.inner label⟩

instance : JsonForm SummarySettings where
  toJson s := .object [("node_attributes", toJson s.nodeAttributes),
    ("edge_attributes", toJson s.edgeAttributes)]
  ofJson? limits j := do
    let [nodes, edges] ← j.fields? limits ["node_attributes", "edge_attributes"] | none
    let s : SummarySettings := {}
    return ⟨← Json.orDefault? limits.inner s.nodeAttributes nodes,
      ← Json.orDefault? limits.inner s.edgeAttributes edges⟩

instance : JsonForm SimilaritySettings where
  toJson s := .object [("edit_distance_threshold", toJson s.threshold),
    ("upper_bound", toJson s.upperBound), ("timeout_secs", toJson s.timeoutSeconds)]
  ofJson? limits j := do
    let [threshold, bound, timeout] ←
      j.fields? limits ["edit_distance_threshold", "upper_bound", "timeout_secs"] | none
    let s : SimilaritySettings := {}
    return ⟨← Json.orDefault? limits.inner s.threshold threshold,
      ← Json.orDefault? limits.inner s.upperBound bound,
      ← Json.orDefault? limits.inner s.timeoutSeconds timeout⟩

instance : JsonForm HashSettings where
  toJson s := .object [("iterations", toJson s.iterations), ("digest_size", toJson s.digestSize),
    ("node_labels", toJson s.nodeLabels), ("edge_labels", toJson s.edgeLabels)]
  ofJson? limits j := do
    let [iterations, digestSize, nodes, edges] ←
      j.fields? limits ["iterations", "digest_size", "node_labels", "edge_labels"] | none
    let s : HashSettings := {}
    return ⟨← Json.orDefault? limits.inner s.iterations iterations,
      ← Json.orDefault? limits.inner s.digestSize digestSize,
      ← Json.orDefault? limits.inner s.nodeLabels nodes,
      ← Json.orDefault? limits.inner s.edgeLabels edges⟩

instance : JsonForm Settings where
  toJson s := .object [("hash", toJson s.hash), ("similarity", toJson s.similarity),
    ("summary", toJson s.summary)]
  ofJson? limits j := do
    let [hash, similarity, summary] ← j.fields? limits ["hash", "similarity", "summary"] | none
    let s : Settings := {}
    return ⟨← Json.orDefault? limits.inner s.hash hash,
      ← Json.orDefault? limits.inner s.similarity similarity,
      ← Json.orDefault? limits.inner s.summary summary⟩

/-- The text of a record, without white space. -/
def recordText {α : Type} [JsonForm α] (a : α) : String := (toJson a).compact

/-- The record that a text holds. -/
def readRecord? (α : Type) [JsonForm α] (s : String) : Option α :=
  (Json.read? s).bind (JsonForm.ofJson? Limits.json)

/-- The text of an adjacency, over several lines. -/
def Adjacency.text (m : Adjacency) : String := (toJson m).pretty

/-- The document of an edit path. -/
def EditPath.toJson (p : EditPath) : Json :=
  let side : Option NodeId → Json
    | some id => .string id
    | none => .null
  .object [("cost", .int p.cost),
    ("node_mapping", .array (p.mapping.map fun (u, v) => .array [side u, side v]))]

end GraphCompare
