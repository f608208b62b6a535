import GraphCompare.Graph.Basic

/-!
# Partitions of the nodes

A partition of the nodes of a graph is a list of numbers, one for each node by position. Nodes with
equal keys get equal numbers and the numbers follow the order of the keys (`numbering`), so a
partition does not depend on ids or on the order of the nodes.

`Partition.refine` starts from the keys of the nodes and splits a group whose members reach
different groups, or the same ones over different types of edges, until a round splits nothing.
Every round but the last adds a group, so there are no more rounds than nodes.
-/

namespace GraphCompare

/-- The texts of some attributes of a node or an edge; nothing where one is missing or null. -/
abbrev Key := List (Option String)

instance : Std.TransOrd Key := inferInstanceAs (Std.TransOrd (List (Option String)))

instance : Std.LawfulEqOrd Key := inferInstanceAs (Std.LawfulEqOrd (List (Option String)))

/-- The key of a bag of attributes. -/
def Attributes.key (a : Attributes) (names : List String) : Key := names.map a.text?

section Numbering

variable {κ : Type} [Ord κ] [Std.TransOrd κ] [Std.LawfulEqOrd κ]

/-- The place of each key among the distinct keys in order. -/
def numbering (keys : List κ) : List Nat :=
  let distinct := (SortedSet.ofList keys).toList
  keys.map fun k => distinct.findIdx fun d => compare d k == .eq

end Numbering

/-- An edge by positions, with its type. -/
structure TypedArc where
  source : Nat
  target : Nat
  type : Key

/-- A partition of the nodes: the number of the group of each. -/
abbrev Partition := List Nat

namespace Partition

/-- The number of groups. -/
def groupCount (p : Partition) : Nat := (SortedSet.ofList p).toList.length

/-- The group of the node at a position. -/
def groupOf (p : Partition) (i : Nat) : Nat := (p[i]?).getD 0

/-- What a node reaches: the types of its outgoing edges with the groups they lead to. -/
def signature (arcs : List TypedArc) (p : Partition) (i : Nat) : SortedSet (Key × Nat) :=
  .ofList ((arcs.filter (·.source == i)).map fun a => (a.type, p.groupOf a.target))

/-- One round: nodes stay together if they were together and reach the same. -/
def split (arcs : List TypedArc) (p : Partition) : Partition :=
  numbering (p.zipIdx.map fun (group, i) => (group, (p.signature arcs i).toList))

/-- Makes rounds until one adds no group. -/
def refineWithin (arcs : List TypedArc) : (rounds : Nat) → Partition → Partition
  | 0, p => p
  | rounds + 1, p =>
    let next := p.split arcs
    if next.groupCount = p.groupCount then next else refineWithin arcs rounds next

/-- The partition that starts from keys and that no round splits any more. -/
def refine (arcs : List TypedArc) (keys : List Key) : Partition :=
  refineWithin arcs (keys.length + 1) (numbering keys)

/-- The members of a group, by position. -/
def members (p : Partition) (group : Nat) : List Nat :=
  (p.zipIdx.filter fun e => e.1 == group).map Prod.snd

end Partition

end GraphCompare
