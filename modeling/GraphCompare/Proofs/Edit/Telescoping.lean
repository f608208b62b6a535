import Mathlib
import GraphCompare.Proofs.Edit.Exact

/-!
# What a search pays, step by step

A search pays the cost of each choice when it makes it, and for what is left over at the end
(`Problem.paid`, `Problem.completionCost`).

Each step adds to the charge of an assignment in closed form (`charged_snoc`), so what has been paid
is that charge, whatever the order of the steps was (`paid_eq_charged`). The two main statements
follow from it. However the nodes are ordered, the payments for a complete assignment add up to the
cost of its matching, which charges every node, pair of nodes and edge once without an order
(`Complete.paid_telescopes`). And what has been paid on the way, with the lower bound, never exceeds
the cost of a mapping that continues the way (`Complete.paid_add_lowerBound_le`).
-/

namespace GraphCompare.Edit

open Assignment (sources targets)

/-! ## Payments -/

namespace Problem

variable (p : Problem)

/-- What is paid for further choices, one after another, once an assignment has been made. -/
def paidFrom : Assignment → Assignment → ℕ
  | _, [] => 0
  | a, (u, t) :: c => p.stepCost a u t + paidFrom (a ++ [(u, t)]) c

/-- The sum of the step costs of an assignment in its order. -/
def paid (a : Assignment) : ℕ := p.paidFrom [] a

theorem paidFrom_snoc (a c : Assignment) (u : ℕ) (t : Target) :
    p.paidFrom a (c ++ [(u, t)]) = p.paidFrom a c + p.stepCost (a ++ c) u t := by
  induction c generalizing a with
  | nil => simp [paidFrom]
  | cons e c ih =>
    obtain ⟨w, s⟩ := e
    rw [List.cons_append, paidFrom, paidFrom, ih, List.append_assoc, List.singleton_append,
      Nat.add_assoc]

/-- One more choice is paid with its step cost. -/
theorem paid_snoc (a : Assignment) (u : ℕ) (t : Target) :
    p.paid (a ++ [(u, t)]) = p.paid a + p.stepCost a u t :=
  p.paidFrom_snoc [] a u t

end Problem

/-! ## Any order -/

namespace Assignment

/-- The assignment of the same targets in another order of the nodes. -/
def inOrder (b : Assignment) (order : List ℕ) : Assignment := order.map fun u => (u, b.target u)

/-- A node that is assigned once has the target that it is assigned. -/
theorem target_of_mem {b : Assignment} (h : b.sources.Nodup) {e : ℕ × Target} (he : e ∈ b) :
    b.target e.1 = e.2 := by
  have found : b.lookup e.1 = some e.2 := lookup_eq_some_of_mem he fun t ht =>
    congrArg Prod.snd (List.inj_on_of_nodup_map h ht he rfl)
  rw [target, found, Option.join_some]

/-- In its own order an assignment is itself. -/
theorem inOrder_sources {b : Assignment} (h : b.sources.Nodup) : b.inOrder b.sources = b := by
  have each : ∀ e ∈ b, ((fun u => (u, b.target u)) ∘ Prod.fst) e = id e :=
    fun e he => Prod.ext rfl (target_of_mem h he)
  rw [inOrder, sources, List.map_map, List.map_congr_left each, List.map_id]

/-- Another order of the nodes reorders the assignment. -/
theorem inOrder_perm {b : Assignment} (h : b.sources.Nodup) {order : List ℕ}
    (horder : order.Perm b.sources) : (b.inOrder order).Perm b := by
  have perm := horder.map fun u => (u, b.target u)
  rwa [← inOrder, ← inOrder, inOrder_sources h] at perm

end Assignment

variable {A B : Graph} {a b c : Assignment}

/-- What has been paid is the charge in closed form. -/
theorem paid_eq_charged (a : Assignment) :
    (Problem.ofGraphs A B).paid a = charged A.shape B.shape a := by
  induction a using List.reverseRecOn with
  | nil => rfl
  | append_singleton a e ih => rw [Problem.paid_snoc, charged_snoc, ih]

namespace Complete

/-- A complete assignment stays complete in another order. -/
theorem perm (h : Complete A B b) (hp : c.Perm b) : Complete A B c where
  sources_perm := (hp.map Prod.fst).trans h.sources_perm
  targets_nodup := (hp.filterMap Prod.snd).nodup_iff.2 h.targets_nodup
  targets_lt v hv := h.targets_lt v ((hp.filterMap Prod.snd).mem_iff.1 hv)

/-- The matching of a complete assignment does not depend on the order. -/
theorem matching_perm (h : Complete A B b) (hp : c.Perm b) :
    (h.perm hp).matching = h.matching := by
  have pairs : c.pairs.toFinset = b.pairs.toFinset :=
    List.toFinset_eq_of_perm _ _ (hp.filterMap _)
  simp only [matching, pairs]

/-- What is paid for a complete assignment and for what is left over is the cost of its matching. -/
theorem paid_add_completionCost (h : Complete A B b) :
    (Problem.ofGraphs A B).paid b + (Problem.ofGraphs A B).completionCost b = h.matching.cost := by
  rw [paid_eq_charged]
  exact h.total_eq_cost

/-- **The payments telescope in every order.** If the nodes of the first graph are gone through in
any order, each with the target that a complete assignment gives it, then the step costs and the
cost of what is left over add up to the cost of the matching: every node of either graph, every
ordered pair of mapped nodes, loops included, and every edge that touches a node left over is
charged once. -/
theorem paid_telescopes (h : Complete A B b) {order : List ℕ}
    (horder : order.Perm (List.range A.nodeCount)) :
    (Problem.ofGraphs A B).paid (b.inOrder order) +
      (Problem.ofGraphs A B).completionCost (b.inOrder order) = h.matching.cost := by
  have hp : (b.inOrder order).Perm b :=
    Assignment.inOrder_perm h.sources_nodup (horder.trans h.sources_perm.symm)
  rw [(h.perm hp).paid_add_completionCost, h.matching_perm hp]

end Complete

/-- The caller becomes the node that is called, and the node that it calls is deleted. -/
theorem complete_twoCalls : Complete .twoCalls .oneCall [(0, some 1), (1, none)] :=
  ⟨by decide, by decide, by decide⟩

/-- The two calls are paid for when the caller is assigned, the second of the nodes in this order,
and not when the node is deleted that they lead to. -/
theorem paid_telescopes_twoCalls :
    [1, 0].Perm (List.range Graph.twoCalls.nodeCount) ∧
      (Problem.ofGraphs .twoCalls .oneCall).paid [(1, none)] = 1 ∧
      (Problem.ofGraphs .twoCalls .oneCall).paid [(1, none), (0, some 1)] = 5 ∧
      complete_twoCalls.matching.cost = 7 := by
  have order : [1, 0].Perm (List.range Graph.twoCalls.nodeCount) := by decide
  have first : (Problem.ofGraphs .twoCalls .oneCall).paid [(1, none)] = 1 := by cbv
  have both : (Problem.ofGraphs .twoCalls .oneCall).paid [(1, none), (0, some 1)] = 5 := by cbv
  have rest : (Problem.ofGraphs .twoCalls .oneCall).completionCost [(1, none), (0, some 1)] = 2 := by
    cbv
  have total := complete_twoCalls.paid_telescopes order
  have turned : Assignment.inOrder [(0, some 1), (1, none)] [1, 0] = [(1, none), (0, some 1)] := rfl
  rw [turned, both, rest] at total
  exact ⟨order, first, both, total.symm⟩

/-! ## Any state -/

/-- With every node covered nothing is open any more, so all that is unused has to be added. -/
theorem lowerBound_of_covers (h : ∀ u < A.nodeCount, a.covers u) :
    (Problem.ofGraphs A B).lowerBound a = (Problem.ofGraphs A B).completionCost a := by
  have nodes : (Problem.ofGraphs A B).openLabels a = [] := by
    rw [Problem.openLabels, List.map_eq_nil_iff, List.filter_eq_nil_iff]
    intro u hu
    rw [List.mem_range, Problem.ofGraphs, Profile.size_ofGraph] at hu
    simp [h u hu]
  have edges : (Problem.ofGraphs A B).openEdgeLabels a = [] := by
    rw [Problem.openEdgeLabels, List.map_eq_nil_iff, List.filter_eq_nil_iff]
    intro e he
    have ends := A.shape.inside e he
    rw [Graph.shape, Finset.mem_range, Finset.mem_range] at ends
    simp [h e.1 ends.1, h e.2.1 ends.2]
  rw [Problem.lowerBound, Problem.completionCost, multisetDistance_eq, multisetDistance_eq, nodes,
    edges]
  simp

/-- **The estimate is admissible in every state.** However some nodes of the first graph have been
assigned, and however the others are assigned afterwards, what has been paid so far and the lower
bound do not exceed the cost of the mapping in the end. Once every node is assigned, the lower bound
is the cost of what is left over. -/
theorem Complete.paid_add_lowerBound_le (h : Complete A B (a ++ c)) :
    (Problem.ofGraphs A B).paid a + (Problem.ofGraphs A B).lowerBound a ≤ h.matching.cost ∧
      ((∀ u < A.nodeCount, a.covers u) →
        (Problem.ofGraphs A B).lowerBound a = (Problem.ofGraphs A B).completionCost a) := by
  refine ⟨?_, lowerBound_of_covers⟩
  rw [paid_eq_charged, ← h.total_eq_cost]
  exact h.charged_add_lowerBound_le

/-- Half-way four of seven are paid or estimated, and in the end the lower bound is exact. -/
theorem paid_add_lowerBound_le_twoCalls :
    Complete .twoCalls .oneCall ([(0, some 1)] ++ [(1, none)]) ∧
      (Problem.ofGraphs .twoCalls .oneCall).paid [(0, some 1)] = 2 ∧
      (Problem.ofGraphs .twoCalls .oneCall).lowerBound [(0, some 1)] = 2 ∧
      (Problem.ofGraphs .twoCalls .oneCall).paid [(0, some 1)] +
        (Problem.ofGraphs .twoCalls .oneCall).lowerBound [(0, some 1)] ≤
          complete_twoCalls.matching.cost ∧
      (∀ u < Graph.twoCalls.nodeCount, Assignment.covers [(0, some 1), (1, none)] u) ∧
      (Problem.ofGraphs .twoCalls .oneCall).lowerBound [(0, some 1), (1, none)] =
        (Problem.ofGraphs .twoCalls .oneCall).completionCost [(0, some 1), (1, none)] := by
  have paid : (Problem.ofGraphs .twoCalls .oneCall).paid [(0, some 1)] = 2 := by cbv
  have bound : (Problem.ofGraphs .twoCalls .oneCall).lowerBound [(0, some 1)] = 2 := by cbv
  have halfway := (Complete.paid_add_lowerBound_le (a := [(0, some 1)]) (c := [(1, none)])
    complete_twoCalls).1
  have covers : ∀ u < Graph.twoCalls.nodeCount, Assignment.covers [(0, some 1), (1, none)] u := by
    decide
  have whole := (Complete.paid_add_lowerBound_le (a := [(0, some 1), (1, none)]) (c := [])
    complete_twoCalls).2 covers
  exact ⟨complete_twoCalls, paid, bound, halfway, covers, whole⟩

end GraphCompare.Edit
