import Mathlib
import GraphCompare.Edit.Distance
import GraphCompare.Proofs.Edit.Shape

/-!
# What the search charges

The search charges the nodes of the first graph one by one: each when it is mapped, together with
its edges to the nodes mapped before. `charged` is the same amount in closed form, the nodes of an
assignment and all ordered pairs of them, and `charged_snoc` says that one more step adds just its
`stepCost`. So what a search has charged does not depend on the order in which it went.

In the closed form every charge is a number of `changes`: the label of a node against the label it
reaches, and the edge labels of a pair against those the pair reaches, where a deleted node reaches
nothing. Sums over ordered pairs are written with `pairSum`.
-/

namespace GraphCompare

/-! ## Sums over ordered pairs -/

section PairSum

variable {α β M : Type*} [AddCommMonoid M]

/-- The sum over all pairs of an element of one list and an element of another. -/
def pairSum (f : α → β → M) (l : List α) (k : List β) : M :=
  (l.map fun a => (k.map (f a)).sum).sum

theorem pairSum_append_left (f : α → β → M) (l l' : List α) (k : List β) :
    pairSum f (l ++ l') k = pairSum f l k + pairSum f l' k := by
  simp [pairSum]

theorem pairSum_append_right (f : α → β → M) (l : List α) (k k' : List β) :
    pairSum f l (k ++ k') = pairSum f l k + pairSum f l k' := by
  simp [pairSum, List.sum_map_add]

theorem pairSum_singleton_left (f : α → β → M) (a : α) (k : List β) :
    pairSum f [a] k = (k.map (f a)).sum := by
  simp [pairSum]

theorem pairSum_singleton_right (f : α → β → M) (l : List α) (b : β) :
    pairSum f l [b] = (l.map fun a => f a b).sum := by
  simp [pairSum]

/-- The pairs of a list that is continued are the pairs of the list and those with a new member. -/
theorem pairSum_append_self (f : α → α → M) (l c : List α) :
    pairSum f (l ++ c) (l ++ c) = pairSum f l l + (pairSum f l c + pairSum f c (l ++ c)) := by
  rw [pairSum_append_left, pairSum_append_right f l, add_assoc]

theorem pairSum_add (f g : α → β → M) (l : List α) (k : List β) :
    pairSum (fun a b => f a b + g a b) l k = pairSum f l k + pairSum g l k := by
  simp [pairSum, List.sum_map_add]

/-- Over a list without repetition a sum over pairs is one over the set of its elements. -/
theorem pairSum_eq_sum_toFinset [DecidableEq α] (f : α → α → M) {l : List α} (h : l.Nodup) :
    pairSum f l l = ∑ a ∈ l.toFinset, ∑ b ∈ l.toFinset, f a b := by
  rw [pairSum, List.sum_toFinset _ h]
  exact congrArg List.sum (List.map_congr_left fun a _ => (List.sum_toFinset (f a) h).symm)

theorem card_pairSum {γ : Type*} (f : α → β → Multiset γ) (l : List α) (k : List β) :
    (pairSum f l k).card = pairSum (fun a b => (f a b).card) l k := by
  simp only [pairSum, ← Multiset.cardHom_apply, map_list_sum, List.map_map, Function.comp_def]

/-- Changes of sums over pairs are at most the sum of the changes. -/
theorem changes_pairSum_le (f g : α → β → Multiset String) (l : List α) (k : List β) :
    changes (pairSum f l k) (pairSum g l k) ≤ pairSum (fun a b => changes (f a b) (g a b)) l k :=
  (changes_sum_le _ _ l).trans (List.sum_le_sum fun _ _ => changes_sum_le _ _ k)

end PairSum

/-! ## What a profile knows of a graph -/

namespace Profile

variable (g : Graph)

@[simp] theorem size_ofGraph : (ofGraph g).size = g.nodeCount := by
  simp [size, ofGraph, Graph.nodeCount]

@[simp] theorem label_ofGraph : (ofGraph g).label = g.shape.label := by
  funext u
  simp [label, ofGraph, Graph.shape, Graph.labelAt]

theorem edges_ofGraph : ((ofGraph g).edges : Multiset Link) = g.shape.edges := rfl

/-- The labels between two nodes are picked out of the edges. -/
theorem coe_pair (p : Profile) (u v : ℕ) : (p.pair u v : Multiset String) =
    labelsBetween p.edges u v := by
  unfold pair
  induction p.edges with
  | nil => rfl
  | cons e edges ih =>
    obtain ⟨s, t, l⟩ := e
    rw [← Multiset.cons_coe, labelsBetween_cons, ← ih, List.filterMap_cons]
    by_cases h : s = u ∧ t = v
    · simp [h, ← Multiset.cons_coe]
    · simp [h]

theorem pair_ofGraph (u v : ℕ) : ((ofGraph g).pair u v : Multiset String) =
    g.shape.between u v := by
  rw [coe_pair, edges_ofGraph, Shape.between]

end Profile

namespace Edit

/-! ## Charges -/

/-- The label that a target stands for, none where a node is deleted. -/
def labelReached (H : Shape) : Target → Multiset String
  | some v => {H.label v}
  | none => 0

/-- The edge labels that a pair of targets stands for, none where one of the nodes is deleted. -/
def edgesReached (H : Shape) : Target → Target → Multiset String
  | some v, some x => H.between v x
  | _, _ => 0

/-- The charge of a node. -/
def nodeCharge (G H : Shape) (e : ℕ × Target) : ℕ := changes {G.label e.1} (labelReached H e.2)

/-- The charge of the edges from one node to another. -/
def edgeCharge (G H : Shape) (e f : ℕ × Target) : ℕ :=
  changes (G.between e.1 f.1) (edgesReached H e.2 f.2)

/-- What an assignment has been charged so far. -/
def charged (G H : Shape) (a : Assignment) : ℕ :=
  (a.map (nodeCharge G H)).sum + pairSum (edgeCharge G H) a a

/-- The search between two graphs. -/
def Problem.ofGraphs (A B : Graph) : Problem := ⟨.ofGraph A, .ofGraph B⟩

section Charge

variable (A B : Graph)

theorem edgesReached_none_right (H : Shape) (t : Target) : edgesReached H t none = 0 := by
  cases t <;> rfl

theorem nodeCost_eq (u : ℕ) (t : Target) :
    (Problem.ofGraphs A B).nodeCost u t = nodeCharge A.shape B.shape (u, t) := by
  cases t with
  | none => simp [Problem.nodeCost, nodeCharge, labelReached]
  | some v => simp [Problem.nodeCost, nodeCharge, labelReached, changes_singleton,
      Problem.ofGraphs]

theorem loopCost_eq (u : ℕ) (t : Target) :
    (Problem.ofGraphs A B).loopCost u t = edgeCharge A.shape B.shape (u, t) (u, t) := by
  cases t with
  | none =>
    simp [Problem.loopCost, edgeCharge, edgesReached, Problem.ofGraphs, ← Profile.pair_ofGraph]
  | some v =>
    simp [Problem.loopCost, edgeCharge, edgesReached, Problem.ofGraphs, ← Profile.pair_ofGraph,
      pairCost_eq]

theorem betweenCost_eq (u w : ℕ) (t s : Target) :
    (Problem.ofGraphs A B).betweenCost u w t s =
      edgeCharge A.shape B.shape (u, t) (w, s) + edgeCharge A.shape B.shape (w, s) (u, t) := by
  cases t with
  | none =>
    simp [Problem.betweenCost, edgeCharge, edgesReached, Problem.ofGraphs,
      ← Profile.pair_ofGraph]
  | some v =>
    cases s <;>
    simp [Problem.betweenCost, edgeCharge, edgesReached, Problem.ofGraphs,
      ← Profile.pair_ofGraph, pairCost_eq]

/-- A step charges its node, its loops, and the edges to every node of the assignment. -/
theorem stepCost_eq (a : Assignment) (u : ℕ) (t : Target) :
    (Problem.ofGraphs A B).stepCost a u t =
      nodeCharge A.shape B.shape (u, t) + edgeCharge A.shape B.shape (u, t) (u, t) +
        ((a.map (edgeCharge A.shape B.shape (u, t))).sum +
          (a.map fun e => edgeCharge A.shape B.shape e (u, t)).sum) := by
  have hfold : ∀ l : List ℕ, l.foldr (· + ·) 0 = l.sum := fun _ => rfl
  rw [Problem.stepCost, nodeCost_eq, loopCost_eq, hfold, ← List.sum_map_add]
  simp only [betweenCost_eq]

/-- **One more step adds its cost to what has been charged.** -/
theorem charged_snoc (a : Assignment) (u : ℕ) (t : Target) :
    charged A.shape B.shape (a ++ [(u, t)]) =
      charged A.shape B.shape a + (Problem.ofGraphs A B).stepCost a u t := by
  rw [charged, charged, pairSum_append_self, pairSum_append_right, stepCost_eq]
  simp only [pairSum_singleton_left, pairSum_singleton_right, List.map_append, List.sum_append,
    List.map_cons, List.map_nil, List.sum_cons, List.sum_nil]
  omega

end Charge

end Edit

end GraphCompare
