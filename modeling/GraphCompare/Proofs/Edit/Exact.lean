import Mathlib
import GraphCompare.Proofs.Edit.Leaves

/-!
# The search finds the distance

Every partial injection is that of a complete assignment in the order of the search, so the first of
the cheapest leaves costs the distance of the two shapes (`exists_exhaustive`). That leaf is what the
search ends with, if it stays below the cost to beat at the start, and with nothing otherwise. For
graphs that can be numbered in 32 bits the cost to beat is the bound and one, since the distance is
far from the greatest number of 64 bits.
-/

namespace GraphCompare

/-- Whether the nodes and edges of a graph can be numbered in 32 bits. -/
def Graph.Indexable (g : Graph) : Prop := g.nodeCount < 2 ^ 32 ∧ g.edgeCount < 2 ^ 32

instance (g : Graph) : Decidable g.Indexable := inferInstanceAs (Decidable (_ ∧ _))

namespace Edit

variable {A B : Graph}

/-- No complete assignment costs less than the distance. -/
theorem Complete.distance_le_total {b : Assignment} (h : Complete A B b) :
    A.shape.distance B.shape ≤ total A B b := by
  rw [h.total_eq_cost]
  exact Shape.distance_le _

/-- Some complete assignment in the order of the search costs the distance. -/
theorem exists_total_eq_distance :
    ∃ b ∈ completions A B (Problem.ofGraphs A B).order [],
      total A B b = A.shape.distance B.shape := by
  obtain ⟨m, hm⟩ := Shape.exists_cost_eq_distance A.shape B.shape
  obtain ⟨b, h, hb, rfl⟩ := exists_complete m (order_perm (A := A) (B := B))
  exact ⟨b, ⟨h, b, rfl, hb⟩, h.total_eq_cost.trans hm⟩

/-- The first of the cheapest leaves is a complete assignment that costs the distance. -/
theorem exists_exhaustive (A B : Graph) :
    ∃ b, Complete A B b ∧ total A B b = A.shape.distance B.shape ∧
      (Problem.ofGraphs A B).exhaustive = some (A.shape.distance B.shape, b) := by
  obtain ⟨b₀, hb₀, hd⟩ := exists_total_eq_distance (A := A) (B := B)
  have hleaf₀ := (mem_leaves started_nil).2 ⟨b₀, hb₀, rfl⟩
  cases hleast : (Problem.ofGraphs A B).exhaustive with
  | none => exact absurd hleaf₀ (List.argmin_eq_none.1 hleast ▸ List.not_mem_nil)
  | some least =>
    obtain ⟨b, hb, rfl⟩ := (mem_leaves started_nil).1 (List.argmin_mem hleast)
    have hle : (total A B b, b).1 ≤ (total A B b₀, b₀).1 := List.le_of_mem_argmin hleaf₀ hleast
    have htotal : total A B b = A.shape.distance B.shape :=
      le_antisymm (hle.trans_eq hd) hb.1.distance_le_total
    exact ⟨b, hb.1, htotal, by rw [htotal]⟩

/-- Below the cost to beat the search ends with a complete assignment that costs the distance. -/
theorem solve_of_lt (bound : ℕ)
    (h : A.shape.distance B.shape < min (bound + 1) Problem.maxSize) :
    ∃ b, Complete A B b ∧ total A B b = A.shape.distance B.shape ∧
      (Problem.ofGraphs A B).solve bound = some (A.shape.distance B.shape, b) := by
  obtain ⟨b, hb, htotal, hleast⟩ := exists_exhaustive A B
  refine ⟨b, hb, htotal, ?_⟩
  rw [solve_eq_filter, hleast, Option.filter_some, if_pos (decide_eq_true h)]

/-- From the cost to beat on the search ends with nothing. -/
theorem solve_of_le (bound : ℕ)
    (h : min (bound + 1) Problem.maxSize ≤ A.shape.distance B.shape) :
    (Problem.ofGraphs A B).solve bound = none := by
  obtain ⟨b, -, -, hleast⟩ := exists_exhaustive A B
  rw [solve_eq_filter, hleast, Option.filter_some, if_neg]
  exact fun hlt => (of_decide_eq_true hlt).not_ge h

/-- The distance of graphs that can be numbered in 32 bits fits into 64 bits. -/
theorem distance_lt_maxSize (hA : A.Indexable) (hB : B.Indexable) :
    A.shape.distance B.shape < Problem.maxSize := by
  have hle := Shape.distance_le_size A.shape B.shape
  have hsize : ∀ g : Graph, g.shape.size = g.nodeCount + g.edgeCount := by
    intro g
    simp [Shape.size, Graph.shape, Graph.edgeCount]
  rw [hsize, hsize] at hle
  obtain ⟨hnA, heA⟩ := hA
  obtain ⟨hnB, heB⟩ := hB
  unfold Problem.maxSize UInt64.size
  omega

/-- The distance that is reported is the least cost, if that stays below the cost to beat. -/
theorem editDistance?_eq_of_limit (A B : Graph) (bound : UInt64) :
    A.editDistance? B bound =
      if A.shape.distance B.shape < min (bound.toNat + 1) Problem.maxSize then
        some (A.shape.distance B.shape)
      else none := by
  have hrun : A.editDistance? B bound = (((Problem.ofGraphs A B).solve bound.toNat).map
      (pathOf (Problem.ofGraphs A B))).map EditPath.cost := rfl
  split <;> rename_i h
  · obtain ⟨b, -, -, hsolve⟩ := solve_of_lt bound.toNat h
    rw [hrun, hsolve]
    rfl
  · rw [hrun, solve_of_le bound.toNat (not_lt.1 h)]
    rfl

/-- The distance that is reported is the least cost, as far as the bound goes. -/
theorem editDistance?_eq (hA : A.Indexable) (hB : B.Indexable) (bound : UInt64) :
    A.editDistance? B bound =
      if A.shape.distance B.shape ≤ bound.toNat then some (A.shape.distance B.shape) else none := by
  have hmax := distance_lt_maxSize hA hB
  have hlimit : A.shape.distance B.shape < min (bound.toNat + 1) Problem.maxSize ↔
      A.shape.distance B.shape ≤ bound.toNat := by
    rw [lt_min_iff, Nat.lt_succ_iff]
    exact and_iff_left hmax
  rw [editDistance?_eq_of_limit]
  simp only [hlimit]

end Edit

/-- **Exactness of the bounded search.** A path is found exactly if the least cost of a partial
injection stays within the bound, the greatest bound included, and then it has that cost. -/
theorem Graph.editPath?_exact (A B : Graph) (bound : UInt64) (hA : A.Indexable)
    (hB : B.Indexable) :
    (A.shape.distance B.shape ≤ bound.toNat →
      ∃ path, A.editPath? B bound = some path ∧ path.cost = A.shape.distance B.shape) ∧
    (bound.toNat < A.shape.distance B.shape → A.editPath? B bound = none) := by
  have hdist := Edit.editDistance?_eq hA hB bound
  rw [editDistance?] at hdist
  constructor
  · intro h
    rw [if_pos h] at hdist
    exact Option.map_eq_some_iff.1 hdist
  · intro h
    rw [if_neg (not_le.2 h)] at hdist
    exact Option.map_eq_none_iff.1 hdist

/-- A node that calls another one twice and itself once. -/
def Graph.twoCalls : Graph where
  nodes := [⟨"1", .ofLabel "f"⟩, ⟨"2", .ofLabel "g"⟩]
  arcs := [⟨0, 1, .ofLabel "call"⟩, ⟨0, 1, .ofLabel "call"⟩, ⟨0, 0, .ofLabel "rec"⟩]
  nodup_ids := by decide
  arcs_inside := by decide

/-- The same nodes under other ids with a single call. -/
def Graph.oneCall : Graph where
  nodes := [⟨"x", .ofLabel "f"⟩, ⟨"y", .ofLabel "g"⟩]
  arcs := [⟨0, 1, .ofLabel "call"⟩]
  nodup_ids := by decide
  arcs_inside := by decide

theorem Graph.twoCalls_indexable : Graph.twoCalls.Indexable := by decide

theorem Graph.oneCall_indexable : Graph.oneCall.Indexable := by decide

/-- What a run of the search finds under one bound fixes its answer under every other. -/
theorem Graph.editPath?_twoCalls :
    (twoCalls.Indexable ∧ oneCall.Indexable) ∧ twoCalls.shape.distance oneCall.shape = 2 ∧
      (∃ path, twoCalls.editPath? oneCall 18446744073709551615 = some path ∧ path.cost = 2) ∧
      twoCalls.editPath? oneCall 1 = none := by
  have hrun : (twoCalls.editPath? oneCall 2).map EditPath.cost = some 2 := by cbv
  have h := editPath?_exact twoCalls oneCall 2 twoCalls_indexable oneCall_indexable
  have hd : twoCalls.shape.distance oneCall.shape = 2 := by
    by_cases hle : twoCalls.shape.distance oneCall.shape ≤ UInt64.toNat 2
    · obtain ⟨path, hpath, hcost⟩ := h.1 hle
      rw [hpath] at hrun
      exact hcost ▸ Option.some.inj hrun
    · rw [h.2 (not_le.1 hle)] at hrun
      cases hrun
  refine ⟨⟨twoCalls_indexable, oneCall_indexable⟩, hd, ?_, ?_⟩
  · have h := editPath?_exact twoCalls oneCall 18446744073709551615 twoCalls_indexable
      oneCall_indexable
    rw [hd] at h
    exact h.1 (by decide)
  · have h := editPath?_exact twoCalls oneCall 1 twoCalls_indexable oneCall_indexable
    rw [hd] at h
    exact h.2 (by decide)

end GraphCompare
