import GraphCompare.Edit.Multiset
import GraphCompare.Edit.Profile

/-!
# The search for a cheapest mapping

Turning a graph into another is told by a mapping of the nodes of the first: each goes to a node of
the second that no other goes to, or is deleted. A node that changes its label costs one, and so
does one that is deleted or that is left over in the second graph; the edges between two mapped
nodes cost the distance of their label multisets, and every other edge costs one.

The search maps the nodes one after another, those with many edges first, and goes depth first
through the choices, the most promising first. It keeps the cheapest complete mapping found so far
and leaves out every choice whose estimate, the cost so far and a lower bound of the rest, does not
stay below the cost to beat. At the start the cost to beat is one above the bound of the caller.
-/

namespace GraphCompare.Edit

/-- Where a node goes: to a position in the second graph, or nowhere. -/
abbrev Target := Option Nat

/-- The nodes that have been mapped, in this order, with their targets. -/
abbrev Assignment := List (Nat × Target)

namespace Assignment

/-- Whether a node of the first graph has been mapped or deleted. -/
def covers (a : Assignment) (u : Nat) : Bool := a.any fun e => e.1 == u

/-- Whether some node goes to a node of the second graph. -/
def uses (a : Assignment) (v : Nat) : Bool := a.any fun e => e.2 == some v

/-- The target of a node, nothing where it is deleted or has not been mapped. -/
def target (a : Assignment) (u : Nat) : Target := (a.lookup u).join

end Assignment

/-- The two graphs of a search. -/
structure Problem where
  first : Profile
  second : Profile

namespace Problem

variable (p : Problem)

/-- The cost of the node itself: a change of label, or a deletion. -/
def nodeCost (u : Nat) : Target → Nat
  | some v => if p.first.label u = p.second.label v then 0 else 1
  | none => 1

/-- The cost of the edges from a node to itself. -/
def loopCost (u : Nat) : Target → Nat
  | some v => pairCost (p.first.pair u u) (p.second.pair v v)
  | none => (p.first.pair u u).length

/-- The cost of the edges between two nodes of the first graph, in both directions. -/
def betweenCost (u w : Nat) : Target → Target → Nat
  | some v, some x =>
    pairCost (p.first.pair u w) (p.second.pair v x) +
      pairCost (p.first.pair w u) (p.second.pair x v)
  | _, _ => (p.first.pair u w).length + (p.first.pair w u).length

/-- What it costs to map one more node: the node, its loops, and its edges to the nodes that have
been mapped before. -/
def stepCost (a : Assignment) (u : Nat) (t : Target) : Nat :=
  let between := a.map fun e => p.betweenCost u e.1 t e.2
  p.nodeCost u t + p.loopCost u t + between.foldr (· + ·) 0

/-- The labels of the nodes of the first graph that are still to be mapped. -/
def openLabels (a : Assignment) : List String :=
  ((List.range p.first.size).filter fun u => !a.covers u).map p.first.label

/-- The nodes of the second graph that nothing goes to. -/
def unused (a : Assignment) : List Nat := (List.range p.second.size).filter fun v => !a.uses v

/-- The labels of the edges of the first graph with an end that is still to be mapped. -/
def openEdgeLabels (a : Assignment) : List String :=
  (p.first.edges.filter fun e => !a.covers e.1 || !a.covers e.2.1).map (·.2.2)

/-- The labels of the edges of the second graph with an end that nothing goes to. -/
def unusedEdgeLabels (a : Assignment) : List String :=
  (p.second.edges.filter fun e => !a.uses e.1 || !a.uses e.2.1).map (·.2.2)

/-- The least that the rest of any mapping can cost: what is open on one side has to become what is
unused on the other. -/
def lowerBound (a : Assignment) : Nat :=
  multisetDistance (p.openLabels a) ((p.unused a).map p.second.label) +
    multisetDistance (p.openEdgeLabels a) (p.unusedEdgeLabels a)

/-- The cost of what is left over in the second graph once every node has been mapped. -/
def completionCost (a : Assignment) : Nat := (p.unused a).length + (p.unusedEdgeLabels a).length

/-- The nodes of the first graph in the order in which they are mapped: by falling degree, then by
position. -/
def order : List Nat :=
  (List.range p.first.size).mergeSort fun u w => p.first.degree w ≤ p.first.degree u

/-- A choice for one node. -/
structure Candidate where
  /-- The cost so far, that of the choice, and the lower bound of the rest. -/
  estimate : Nat
  step : Nat
  target : Target

/-- What orders the choices: the estimate, deletion after mapping, then the position. -/
def Candidate.key (c : Candidate) : Nat × Nat × Nat :=
  (c.estimate, if c.target.isNone then 1 else 0, c.target.getD 0)

/-- A choice with its costs. -/
def candidate (a : Assignment) (cost u : Nat) (t : Target) : Candidate :=
  let step := p.stepCost a u t
  ⟨cost + step + p.lowerBound (a ++ [(u, t)]), step, t⟩

/-- All choices for a node, the most promising first. -/
def candidates (a : Assignment) (cost u : Nat) : List Candidate :=
  (((p.unused a).map some ++ [none]).map (p.candidate a cost u)).mergeSort
    fun c d => (compare c.key d.key).isLE

/-- How far a search has come: the cost to beat, and the cheapest complete mapping so far. -/
structure Progress where
  limit : Nat
  best : Option (Nat × Assignment)

/-- Completes a mapping, if it is cheaper than the best so far. -/
def finish (a : Assignment) (cost : Nat) (s : Progress) : Progress :=
  let total := cost + p.completionCost a
  if total < s.limit then ⟨total, some (total, a)⟩ else s

/-- Goes through all mappings of the nodes that remain. The choices that cannot stay below the cost
to beat are left out before the first is followed, and again when their turn comes. -/
def expand : (remaining : List Nat) → Assignment → (cost : Nat) → Progress → Progress
  | [], a, cost, s => p.finish a cost s
  | u :: rest, a, cost, s =>
    ((p.candidates a cost u).filter fun c => c.estimate < s.limit).foldl
      (fun s c =>
        if c.estimate < s.limit then expand rest (a ++ [(u, c.target)]) (cost + c.step) s else s)
      s

/-- The greatest size that a bound can have. -/
def maxSize : Nat := UInt64.size - 1

/-- The cheapest mapping with a cost up to a bound, and its cost. -/
def solve (bound : Nat) : Option (Nat × Assignment) :=
  (p.expand p.order [] 0 ⟨min (bound + 1) maxSize, none⟩).best

end Problem

end GraphCompare.Edit
