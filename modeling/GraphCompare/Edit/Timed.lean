import GraphCompare.Edit.Search

/-!
# The search against the clock

A search can have a deadline. It reads the clock at every node of its tree, and there once more for
every choice that it weighs; once the deadline has passed it reads the clock no more, tries nothing
else and goes back to the root. What it has found by then stands.

What the clock shows is not up to the search, so it is an argument: a `Clock` gives the instant that
is shown each time the clock is read.
-/

namespace GraphCompare

/-- A clock: what it shows each time it is read, in nanoseconds. The first time is before a search,
when the deadline is set. -/
structure Clock where
  now : Nat → Nat
  /-- The last instant that the clock can show. -/
  last : Nat
  monotone : ∀ k, now k ≤ now (k + 1)
  now_le_last : ∀ k, now k ≤ last

namespace Clock

/-- A clock that stands still. -/
def still : Clock := ⟨fun _ => 0, 0, fun _ => Nat.le_refl 0, fun _ => Nat.le_refl 0⟩

variable (c : Clock)

/-- The instant that lies a number of nanoseconds ahead, nothing if the clock cannot show it. -/
def after? (nanoseconds : Nat) : Option Nat :=
  let deadline := c.now 0 + nanoseconds
  if deadline ≤ c.last then some deadline else none

/-- Whether the clock shows that a deadline has passed when a search reads it for a time. Without a
deadline there is always time left. -/
def isPast (deadline : Option Nat) (look : Nat) : Bool :=
  match deadline with
  | some d => d ≤ c.now (look + 1)
  | none => false

end Clock

namespace Edit.Problem

variable (p : Problem) (isPast : Nat → Bool)

/-- How far a search with a deadline has come. -/
structure Timed where
  progress : Progress
  /-- How often it has looked at the clock. -/
  looks : Nat
  timedOut : Bool

/-- Looks at the clock, unless the deadline is known to have passed. -/
def Timed.look (s : Timed) : Timed :=
  if s.timedOut then s else ⟨s.progress, s.looks + 1, isPast s.looks⟩

/-- Follows a choice for a node, if there is time left and it can stay below the cost to beat. -/
def Timed.follow (expand : Assignment → Nat → Timed → Timed) (a : Assignment) (cost u : Nat)
    (s : Timed) (c : Candidate) : Timed :=
  if s.timedOut then s
  else if c.estimate < s.progress.limit then expand (a ++ [(u, c.target)]) (cost + c.step) s
  else s

/-- Goes through the mappings of the nodes that remain, as `expand` does, until the deadline has
passed. -/
def expandTimed : (remaining : List Nat) → Assignment → (cost : Nat) → Timed → Timed
  | [], a, cost, s =>
    let s := s.look isPast
    if s.timedOut then s else { s with progress := p.finish a cost s.progress }
  | u :: rest, a, cost, s =>
    let candidates := p.candidates a cost u
    let s := candidates.foldl (fun s _ => s.look isPast) (s.look isPast)
    (candidates.filter fun c => c.estimate < s.progress.limit).foldl
      (Timed.follow (expandTimed rest) a cost u) s

/-- The search for the cheapest mapping with a cost up to a bound, with a deadline. -/
def searchTimed (bound : Nat) : Timed :=
  p.expandTimed isPast p.order [] 0 ⟨⟨min (bound + 1) maxSize, none⟩, 0, false⟩

end Edit.Problem

end GraphCompare
