import Mathlib
import GraphCompare.Proofs.Edit.Exact
import GraphCompare.Proofs.Graph.Incidence

/-!
# The path that is reported realises its cost

A search that finds something ends with a complete assignment and its total
(`Edit.exists_of_solve_eq_some`), whatever the graphs and the bound. `Edit.pathOf` writes this
assignment down with ids, in the order of the nodes and not in the order of the search, so the path
has to be read back: a node is looked up with the target that it was assigned
(`Assignment.target_eq_some_iff`), the targets of all nodes in their order are the targets of the
assignment (`Edit.Complete.targets_perm`), and since ids are distinct the positions of the pairs of
the path are the pairs of the assignment (`Edit.Complete.pairs_pathOf`).

`Graph.editPath?_realises` is the statement about the reported path alone: it covers the nodes of
both graphs, in order and each once, and the partial injection that it lists has its cost.
-/

namespace GraphCompare

/-- The ids of the nodes in the order in which they were added. -/
def Graph.ids (g : Graph) : List NodeId := g.nodes.map Node.id

namespace EditPath

/-- An edit path that accounts for every node of two graphs once. -/
structure Covers (path : EditPath) (A B : Graph) : Prop where
  /-- First come the nodes of the first graph in order. -/
  sources : (path.mapping.take A.nodeCount).map Prod.fst = A.ids.map some
  /-- Then come, in order, the nodes of the second graph that none of them goes to. -/
  inserted : path.mapping.drop A.nodeCount =
    (B.ids.filter fun id => some id ∉ (path.mapping.take A.nodeCount).map Prod.snd).map
      fun id => (none, some id)
  /-- The nodes that something becomes are those of the second graph, each once. -/
  targets : (path.mapping.filterMap Prod.snd).Perm B.ids
  no_blank : (none, none) ∉ path.mapping

/-- The positions of the nodes that an edit path maps, with the positions of their images. -/
def pairs (path : EditPath) (A B : Graph) : Finset (ℕ × ℕ) :=
  (A.shape.nodes ×ˢ B.shape.nodes).filter fun p =>
    (some (A.idAt p.1), some (B.idAt p.2)) ∈ path.mapping

end EditPath

/-! ## Ids by position -/

namespace Graph

/-- Nodes with one id are at one position. -/
theorem idAt_inj {g : Graph} {i j : ℕ} (hi : i < g.nodeCount) (hj : j < g.nodeCount) :
    g.idAt i = g.idAt j ↔ i = j := by
  have hid : g.idAt j = (g.node ⟨j, hj⟩).id := g.idAt_eq ⟨j, hj⟩
  rw [hid, idAt_eq_iff hi]

/-- The ids in order are those of the positions in order. -/
theorem ids_eq_map_idAt (g : Graph) : g.ids = (List.range g.nodeCount).map g.idAt := by
  refine List.ext_getElem (by simp [ids, nodeCount]) fun i hi _ => ?_
  have hi' : i < g.nodes.length := by simpa [ids] using hi
  simp [ids, idAt, List.getElem?_eq_getElem hi']

end Graph

@[simp] theorem Profile.id_ofGraph (g : Graph) : (Profile.ofGraph g).id = g.idAt := by
  funext u
  simp [Profile.id, Profile.ofGraph, Graph.idAt]

namespace Edit

open Assignment (sources targets)

/-! ## Reading an assignment -/

namespace Assignment

/-- In an assignment that maps no node twice, a node is looked up with its target. -/
theorem target_eq_some_iff {a : Assignment} (h : a.sources.Nodup) {u v : ℕ} :
    a.target u = some v ↔ (u, some v) ∈ a := by
  unfold target
  induction a with
  | nil => simp
  | cons e a ih =>
    obtain ⟨w, t⟩ := e
    obtain ⟨hw, ha⟩ := List.nodup_cons.1 h
    have hnot : ∀ s, (w, s) ∉ a := fun s hs => hw (List.mem_map.2 ⟨(w, s), hs, rfl⟩)
    rw [List.lookup_cons, List.mem_cons, Prod.mk.injEq]
    by_cases hu : u = w
    · subst hu
      simp [hnot, eq_comm]
    · have hb : (u == w) = false := beq_eq_false_iff_ne.2 hu
      simp [hb, hu, ih ha]

/-- The targets of an assignment, looked up source by source. -/
theorem filterMap_target {a : Assignment} (h : a.sources.Nodup) :
    a.sources.filterMap a.target = a.targets := by
  rw [sources, targets, List.filterMap_map]
  refine List.filterMap_congr fun e he => ?_
  obtain ⟨u, _ | v⟩ := e
  · refine Option.eq_none_iff_forall_ne_some.2 fun v hv => ?_
    have hm := (target_eq_some_iff h).1 hv
    have := List.inj_on_of_nodup_map h he hm rfl
    cases this
  · exact (target_eq_some_iff h).2 he

end Assignment

/-! ## What a search ends with -/

variable {A B : Graph} {b : Assignment}

/-- **What a search finds is a complete assignment with its total.** -/
theorem exists_of_solve_eq_some {bound : ℕ} {found : ℕ × Assignment}
    (h : (Problem.ofGraphs A B).solve bound = some found) :
    ∃ b, Complete A B b ∧ found = (total A B b, b) := by
  rw [solve_eq_filter] at h
  obtain ⟨hleast, -⟩ := Option.filter_eq_some_iff.1 h
  obtain ⟨b, hb, hfound⟩ := (mem_leaves started_nil).1 (List.argmin_mem hleast)
  exact ⟨b, hb.1, hfound⟩

namespace Complete

variable (h : Complete A B b)
include h

/-- Where the nodes of the first graph go, in their order, and the nodes that are left over are all
nodes of the second graph. -/
theorem targets_perm :
    ((List.range A.nodeCount).filterMap b.target ++ (Problem.ofGraphs A B).unused b).Perm
      (List.range B.nodeCount) := by
  have hunused : (List.range B.nodeCount).Perm
      (b.targets ++ (Problem.ofGraphs A B).unused b) := by
    have hp := Complete.unused_perm (a := []) h
    simpa [Problem.unused, Assignment.uses, Problem.ofGraphs] using hp
  refine .trans (List.Perm.append_right _ ?_) hunused.symm
  rw [← Assignment.filterMap_target h.sources_nodup]
  exact (h.sources_perm.filterMap b.target).symm

/-- The targets are what some node of the first graph goes to. -/
theorem mem_targets_iff {v : ℕ} :
    v ∈ b.targets ↔ ∃ u < A.nodeCount, b.target u = some v := by
  rw [← Assignment.filterMap_target h.sources_nodup, List.mem_filterMap]
  simp only [h.sources_perm.mem_iff, List.mem_range]

theorem target_lt {u v : ℕ} (ht : b.target u = some v) : v < B.nodeCount := by
  have hm := (Assignment.target_eq_some_iff h.sources_nodup).1 ht
  exact h.targets_lt v (List.mem_filterMap.2 ⟨_, hm, rfl⟩)

end Complete

/-! ## The path of an assignment -/

section PathOf

variable (A B) (cost : ℕ) (b : Assignment)

/-- The part of a path about the nodes of the first graph. -/
theorem take_pathOf : (pathOf (Problem.ofGraphs A B) (cost, b)).mapping.take A.nodeCount =
    (List.range A.nodeCount).map fun u => (some (A.idAt u), (b.target u).map B.idAt) := by
  simp [pathOf, Problem.ofGraphs]

/-- The part of a path about the nodes that are left over. -/
theorem drop_pathOf : (pathOf (Problem.ofGraphs A B) (cost, b)).mapping.drop A.nodeCount =
    ((Problem.ofGraphs A B).unused b).map fun v => (none, some (B.idAt v)) := by
  simp [pathOf, Problem.ofGraphs]

end PathOf

namespace Complete

variable (h : Complete A B b) (cost : ℕ)
include h

/-- A pair of a path maps the node at a position to the one at another exactly if the assignment
does. -/
theorem mem_mapping_pathOf {u v : ℕ} (hu : u < A.nodeCount) (hv : v < B.nodeCount) :
    (some (A.idAt u), some (B.idAt v)) ∈ (pathOf (Problem.ofGraphs A B) (cost, b)).mapping ↔
      b.target u = some v := by
  rw [← List.take_append_drop A.nodeCount (pathOf _ _).mapping, take_pathOf, drop_pathOf]
  simp only [List.mem_append, List.mem_map, List.mem_range, Prod.mk.injEq, reduceCtorEq,
    false_and, and_false, exists_false, or_false, Option.some.injEq]
  constructor
  · rintro ⟨w, hw, hid, ht⟩
    obtain rfl := (Graph.idAt_inj hw hu).1 hid
    obtain ⟨x, hx, hid'⟩ := Option.map_eq_some_iff.1 ht
    rwa [(Graph.idAt_inj (h.target_lt hx) hv).1 hid'] at hx
  · intro ht
    exact ⟨u, hu, rfl, by rw [ht, Option.map_some]⟩

/-- The pairs of a path are the pairs of its assignment. -/
theorem pairs_pathOf :
    (pathOf (Problem.ofGraphs A B) (cost, b)).pairs A B = h.matching.pairs := by
  ext ⟨u, v⟩
  have hpairs : (u, v) ∈ h.matching.pairs ↔ b.target u = some v := by
    rw [Assignment.target_eq_some_iff h.sources_nodup]
    simp [Complete.matching, Assignment.mem_pairs]
  rw [hpairs, EditPath.pairs, Finset.mem_filter, Finset.mem_product]
  constructor
  · rintro ⟨⟨hu, hv⟩, hm⟩
    exact (h.mem_mapping_pathOf cost (Finset.mem_range.1 hu) (Finset.mem_range.1 hv)).1 hm
  · intro ht
    have hin := h.matching.inside _ (hpairs.2 ht)
    exact ⟨hin, (h.mem_mapping_pathOf cost (Finset.mem_range.1 hin.1)
      (Finset.mem_range.1 hin.2)).2 ht⟩

/-- The images that a path lists for the nodes of the first graph are the nodes in use. -/
theorem mem_images_pathOf {v : ℕ} (hv : v < B.nodeCount) :
    some (B.idAt v) ∈ ((pathOf (Problem.ofGraphs A B) (cost, b)).mapping.take
      A.nodeCount).map Prod.snd ↔ b.uses v = true := by
  rw [take_pathOf, Assignment.uses_iff, h.mem_targets_iff]
  simp only [List.map_map, List.mem_map, List.mem_range, Function.comp_apply,
    Option.map_eq_some_iff]
  constructor
  · rintro ⟨u, hu, x, hx, hid⟩
    exact ⟨u, hu, (Graph.idAt_inj (h.target_lt hx) hv).1 hid ▸ hx⟩
  · rintro ⟨u, hu, ht⟩
    exact ⟨u, hu, v, ht, rfl⟩

/-- The path of a complete assignment accounts for every node once. -/
theorem covers_pathOf : (pathOf (Problem.ofGraphs A B) (cost, b)).Covers A B where
  sources := by
    rw [take_pathOf, Graph.ids_eq_map_idAt, List.map_map, List.map_map]
    rfl
  inserted := by
    have hunused : (Problem.ofGraphs A B).unused b = (List.range B.nodeCount).filter fun v =>
        some (B.idAt v) ∉ ((pathOf (Problem.ofGraphs A B) (cost, b)).mapping.take
          A.nodeCount).map Prod.snd := by
      rw [Problem.unused, Problem.ofGraphs, Profile.size_ofGraph]
      refine List.filter_congr fun v hv => ?_
      rw [Bool.eq_iff_iff, Bool.not_eq_true', ← Bool.not_eq_true, decide_eq_true_iff,
        ← h.mem_images_pathOf cost (List.mem_range.1 hv)]
      rfl
    rw [drop_pathOf, hunused, Graph.ids_eq_map_idAt, List.filter_map, List.map_map]
    rfl
  targets := by
    have hp := h.targets_perm.map B.idAt
    rw [List.map_append, List.map_filterMap] at hp
    rw [← List.take_append_drop A.nodeCount (pathOf _ _).mapping, take_pathOf, drop_pathOf,
      List.filterMap_append, List.filterMap_map, List.filterMap_map, Graph.ids_eq_map_idAt]
    simpa [Function.comp_def] using hp
  no_blank := by
    rw [← List.take_append_drop A.nodeCount (pathOf _ _).mapping, take_pathOf, drop_pathOf]
    simp

end Complete

end Edit

/-- **The path that is reported realises its cost.** It lists the nodes of the first graph in order,
each with its image or with nothing, and then in order the nodes of the second graph that are no
image; and the partial injection that it lists, charged on the two graphs anew, costs what the path
says. -/
theorem Graph.editPath?_realises {A B : Graph} {bound : UInt64} {path : EditPath}
    (h : A.editPath? B bound = some path) :
    path.Covers A B ∧
      ∃ m : Matching A.shape B.shape, m.pairs = path.pairs A B ∧ m.cost = path.cost := by
  obtain ⟨found, hsolve, rfl⟩ := Option.map_eq_some_iff.1 h
  obtain ⟨b, hb, rfl⟩ := Edit.exists_of_solve_eq_some hsolve
  exact ⟨hb.covers_pathOf _, hb.matching, (hb.pairs_pathOf _).symm, hb.total_eq_cost.symm⟩

/-- A node that is called once, before its caller, and a third node. -/
def Graph.calledFirst : Graph where
  nodes := [⟨"x", .ofLabel "g"⟩, ⟨"y", .ofLabel "f"⟩, ⟨"z", .ofLabel "h"⟩]
  arcs := [⟨1, 0, .ofLabel "call"⟩]
  nodup_ids := by decide
  arcs_inside := by decide

/-- The nodes are matched crosswise, a node is inserted, and a call and a loop are dropped. -/
theorem Graph.editPath?_calledFirst :
    twoCalls.editPath? calledFirst 500 =
        some ⟨3, [(some "1", some "y"), (some "2", some "x"), (none, some "z")]⟩ ∧
      EditPath.Covers ⟨3, [(some "1", some "y"), (some "2", some "x"), (none, some "z")]⟩
        twoCalls calledFirst ∧
      ∃ m : Matching twoCalls.shape calledFirst.shape,
        m.pairs = {(0, 1), (1, 0)} ∧ m.cost = 3 := by
  have hrun : twoCalls.editPath? calledFirst 500 =
      some ⟨3, [(some "1", some "y"), (some "2", some "x"), (none, some "z")]⟩ := by cbv
  obtain ⟨hcovers, m, hpairs, hcost⟩ := editPath?_realises hrun
  exact ⟨hrun, hcovers, m, hpairs.trans (by decide), hcost⟩

end GraphCompare
