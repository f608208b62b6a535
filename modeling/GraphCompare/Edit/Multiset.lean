/-!
# Distance of label multisets

Turning one multiset of labels into another costs one for each label that is changed, dropped or
added. Labels that both have need not be touched, and of the others as many as possible are changed,
so the cost is the size of the larger multiset less the number of labels in common.
-/

namespace GraphCompare

/-- How many labels two lists have in common, each counted as often as it occurs in both. -/
def commonCount : List String → List String → Nat
  | [], _ => 0
  | x :: xs, ys => if x ∈ ys then commonCount xs (ys.erase x) + 1 else commonCount xs ys

/-- The least number of changes that turn one multiset of labels into another. -/
def multisetDistance (xs ys : List String) : Nat := max xs.length ys.length - commonCount xs ys

/-- The cost of turning the edges of one pair of nodes into those of another. Without edges on one
side, all of the other side are dropped or added. -/
def pairCost (xs ys : List String) : Nat :=
  if xs.isEmpty || ys.isEmpty then xs.length + ys.length else multisetDistance xs ys

end GraphCompare
