import GraphCompare.Edit.Timed

/-!
# Edit distance and edit paths

The edit distance of two graphs is the cost of a cheapest mapping of their nodes, if that stays
within a bound. `EditPath` is the mapping itself, written with the ids of the two graphs.

A search may have a limit of time. When it is over, the cheapest mapping found so far stands, which
need not be a cheapest one. `Graph.searchDistanceBy?` is the answer by a given clock;
`Graph.searchDistance?` is the answer by a clock that stands still, for which no time at all is over
at once and any other limit is long enough.
-/

namespace GraphCompare

/-- A cheapest way of turning one graph into another. -/
structure EditPath where
  cost : Nat
  /-- The nodes of the first graph in order, each with the node it becomes or with nothing where it
  is deleted, and then the nodes of the second graph that are inserted. -/
  mapping : List (Option NodeId × Option NodeId)
deriving DecidableEq

/-- What limits a search. -/
structure SearchBounds where
  /-- The greatest distance that is of interest. -/
  upperBound : UInt64
  /-- The time in seconds, without limit where it is missing. -/
  timeout : Option UInt64

/-- When a search has to end, if it starts when the clock is read first. A time so long that the
clock cannot show its end is without limit. -/
def SearchBounds.deadline? (bounds : SearchBounds) (clock : Clock) : Option Nat :=
  bounds.timeout.bind fun seconds => clock.after? (seconds.toNat * 1000000000)

namespace Edit

/-- A mapping written with ids. -/
def pathOf (p : Problem) (found : Nat × Assignment) : EditPath where
  cost := found.1
  mapping :=
    (List.range p.first.size).map (fun u =>
      (some (p.first.id u), (found.2.target u).map p.second.id)) ++
    (p.unused found.2).map fun v => (none, some (p.second.id v))

end Edit

namespace Graph

/-- The cheapest edit path from one graph to another whose cost stays within a bound. -/
def editPath? (first second : Graph) (upperBound : UInt64) : Option EditPath :=
  let p : Edit.Problem := ⟨.ofGraph first, .ofGraph second⟩
  (p.solve upperBound.toNat).map (Edit.pathOf p)

/-- The edit distance of two graphs within a bound, without a limit of time. -/
def editDistance? (first second : Graph) (upperBound : UInt64) : Option Nat :=
  (first.editPath? second upperBound).map EditPath.cost

/-- The search for the edit distance within bounds, by a clock. -/
def searchBy (clock : Clock) (first second : Graph) (bounds : SearchBounds) : Edit.Problem.Timed :=
  let p : Edit.Problem := ⟨.ofGraph first, .ofGraph second⟩
  p.searchTimed (clock.isPast (bounds.deadline? clock)) bounds.upperBound.toNat

/-- The edit distance that a search within bounds finds, by a clock. -/
def searchDistanceBy? (clock : Clock) (first second : Graph) (bounds : SearchBounds) : Option Nat :=
  (searchBy clock first second bounds).progress.best.map Prod.fst

/-- The edit distance that a search within bounds finds. -/
def searchDistance? (first second : Graph) (bounds : SearchBounds) : Option Nat :=
  searchDistanceBy? .still first second bounds

end Graph

/-- A distance as a number, -1 where there is none. -/
def distanceOrMinusOne : Option Nat → Int
  | some d => d
  | none => -1

end GraphCompare
