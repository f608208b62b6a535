import GraphCompare.Difference
import GraphCompare.Edit.Distance

/-!
# Similarity of two graphs

Graphs with the same labels and the same label triples are identical, and no search is made. For all
others the edit distance decides: below a threshold they are near, from it on distant, and where no
distance is found within the bounds the question stays open.
-/

namespace GraphCompare

/-- The numbers that decide on similarity. -/
structure SimilaritySettings where
  /-- Graphs closer than this many edits are near. -/
  threshold : UInt64 := 10
  upperBound : UInt64 := 500
  timeoutSeconds : UInt64 := 5
deriving DecidableEq

/-- The bounds of the search. -/
def SimilaritySettings.bounds (s : SimilaritySettings) : SearchBounds :=
  ⟨s.upperBound, some s.timeoutSeconds⟩

/-- How two graphs compare. -/
inductive Verdict where
  | identical
  | near (distance : Nat)
  | distant (distance : Nat)
  | unresolved
deriving DecidableEq

/-- Whether two graphs are similar. -/
def Verdict.isSimilar : Verdict → Bool
  | identical | near _ => true
  | distant _ | unresolved => false

namespace Graph

/-- Compares two graphs, by a clock. -/
def compareBy (clock : Clock) (first second : Graph) (s : SimilaritySettings) : Verdict :=
  if (Difference.between (some first) (some second) false).isEmpty then .identical
  else
    match searchDistanceBy? clock first second s.bounds with
    | none => .unresolved
    | some d => if d < s.threshold.toNat then .near d else .distant d

/-- Compares two graphs. -/
def compare (first second : Graph) (s : SimilaritySettings) : Verdict :=
  compareBy .still first second s

end Graph

end GraphCompare
