import Mathlib
import GraphCompare.Proofs.Hash.Rounds

/-!
# The history of a node is a matter of its surroundings

`Graph.ball` are the nodes within a number of steps of a node, whichever way the edges point, and
`Graph.LooksLike` says that a node of one graph has the surroundings of a node of another as far as
a number of steps: the labels at the start within, and the edges with their marks at all nodes but
those at the rim. What a node hears in a round comes over these edges (`coe_map_neighbours`) and
from one step further, so each round costs one step: after `j` rounds the labels agree at the nodes
that have `j` more steps to the rim (`LooksLike.label_eq`). At the centre the first `k` entries of
the histories are the same (`Graph.take_histories_eq_of_looksLike`).
-/

namespace GraphCompare

/-! ## The other end of an edge -/

section FarEnd

variable {α β : Type} [DecidableEq α] [DecidableEq β]

/-- The end of an edge that is not the one it is looked at from, or this one where both are. -/
def farEnd (u : α) (e : Sym2 α) : α := if h : u ∈ e then Sym2.Mem.other' h else u

theorem mk_farEnd {u : α} {e : Sym2 α} (h : u ∈ e) : s(u, farEnd u e) = e := by
  rw [farEnd, dif_pos h]
  exact Sym2.other_spec' h

@[simp] theorem farEnd_mk (u x : α) : farEnd u s(u, x) = x :=
  Sym2.congr_right.1 (mk_farEnd (Sym2.mem_mk_left u x))

/-- Where the ends of an edge go, the far end goes. -/
theorem farEnd_map (f : α → β) {u : α} {e : Sym2 α} (h : u ∈ e) :
    farEnd (f u) (e.map f) = f (farEnd u e) := by
  conv_lhs => rw [← mk_farEnd h]
  rw [Sym2.map_mk, farEnd_mk]

end FarEnd

namespace Graph

section
variable (g : Graph) (o : HashOptions)

/-- The nodes within a number of steps of a node, whichever way the edges point. -/
def ball (v : Fin g.nodes.length) : ℕ → Finset (Fin g.nodes.length)
  | 0 => {v}
  | r + 1 => ball v r ∪ Finset.univ.filter fun u => ∃ x ∈ ball v r, ∃ k, g.ends k = s(x, u)

/-- The edges at a node, each with its two ends, whichever way it points, and its mark. -/
def incidences (u : Fin g.nodes.length) : Multiset (Sym2 (Fin g.nodes.length) × String) :=
  (((List.finRange g.arcs.length).filter fun k => u ∈ g.ends k).map
    fun k => (g.ends k, o.mark (g.arc k).attributes) : List _)

end

/-- As far as a number of steps, a node of one graph has the surroundings that a node of another
has: a bijection of the nodes within that many steps keeps the labels at the start and, for all
nodes but those at the rim, the edges with their marks. -/
structure LooksLike (o : HashOptions) (g h : Graph)
    (node : Fin g.nodes.length → Fin h.nodes.length) (v : Fin g.nodes.length)
    (w : Fin h.nodes.length) (k : ℕ) : Prop where
  bijOn : Set.BijOn node (g.ball v k) (h.ball w k)
  centre : node v = w
  start_label : ∀ u ∈ g.ball v k,
    (h.startLabels o)[(node u : ℕ)]? = (g.startLabels o)[(u : ℕ)]?
  incidences : ∀ r < k, ∀ u ∈ g.ball v r,
    h.incidences o (node u) = (g.incidences o u).map (Prod.map (Sym2.map node) id)

section
variable {g : Graph} {o : HashOptions}

/-- A node within some steps is within more. -/
theorem ball_mono {v : Fin g.nodes.length} {r s : ℕ} (h : r ≤ s) : g.ball v r ⊆ g.ball v s := by
  induction h with
  | refl => exact subset_rfl
  | step _ ih => exact ih.trans Finset.subset_union_left

/-- The far end of an edge is one step further. -/
theorem farEnd_mem_ball {v u : Fin g.nodes.length} {r : ℕ} {k : Fin g.arcs.length}
    (hu : u ∈ g.ball v r) (hk : u ∈ g.ends k) : farEnd u (g.ends k) ∈ g.ball v (r + 1) := by
  rw [ball, Finset.mem_union, Finset.mem_filter]
  exact .inr ⟨Finset.mem_univ _, u, hu, k, (mk_farEnd hk).symm⟩

theorem mem_incidences {u : Fin g.nodes.length} {e : Sym2 (Fin g.nodes.length) × String} :
    e ∈ g.incidences o u ↔ ∃ k, u ∈ g.ends k ∧ (g.ends k, o.mark (g.arc k).attributes) = e := by
  simp [incidences]

/-- What a node hears over an edge that has an end there. -/
def heardFrom (labels : List String) (u : Fin g.nodes.length)
    (e : Sym2 (Fin g.nodes.length) × String) : String :=
  e.2 ++ (labels[(farEnd u e.1).val]?).getD ""

/-- A node hears something over the edges at it and over no others. -/
theorem heard_eq (labels : List String) (u : Fin g.nodes.length) (k : Fin g.arcs.length) :
    (g.arc k).heard o labels u = if u ∈ g.ends k then
      some (heardFrom labels u (g.ends k, o.mark (g.arc k).attributes)) else none := by
  have hs : (g.arc k).source = g.source k := rfl
  have ht : (g.arc k).target = g.target k := rfl
  rw [Arc.heard, hs, ht]
  simp only [← Fin.ext_iff, ends]
  by_cases h : g.source k = u
  · subst h
    simp [heardFrom]
  · by_cases h' : g.target k = u
    · subst h'
      have turned : s(g.source k, g.target k) = s(g.target k, g.source k) := Sym2.eq_swap
      simp [h, heardFrom, turned]
    · simp [h, h', Ne.symm h, Ne.symm h']

/-- The texts that a round sorts for a node are what it hears over the edges at it. -/
theorem coe_map_neighbours (labels : List String) (u : Fin g.nodes.length) :
    (((g.neighbours o u).map (markedLabel labels) : List String) : Multiset String) =
      (g.incidences o u).map (heardFrom labels u) := by
  have harcs : (List.finRange g.arcs.length).map g.arc = g.arcs := List.map_getElem_finRange g.arcs
  have hheard : (fun k => (g.arc k).heard o labels u) = fun k => if u ∈ g.ends k then
      some (heardFrom labels u (g.ends k, o.mark (g.arc k).attributes)) else none :=
    funext (heard_eq labels u)
  have hlist : (List.finRange g.arcs.length).filterMap (fun k => (g.arc k).heard o labels u) =
      ((List.finRange g.arcs.length).filter fun k => u ∈ g.ends k).map
        fun k => heardFrom labels u (g.ends k, o.mark (g.arc k).attributes) := by
    rw [← List.filterMap_eq_map, List.filterMap_filter, hheard]
    simp
  rw [map_neighbours, incidences, Multiset.map_coe, List.map_map]
  conv_lhs => rw [← harcs]
  rw [List.filterMap_map]
  exact congrArg _ hlist

end

namespace LooksLike

variable {o : HashOptions} {g h : Graph} {node : Fin g.nodes.length → Fin h.nodes.length}
  {v : Fin g.nodes.length} {w : Fin h.nodes.length} {k : ℕ}

/-- If the nodes one step further have the same labels, a node and its counterpart hear the same
texts, in some order. -/
theorem neighbours_perm (c : LooksLike o g h node v w k) {labels labels' : List String} {r : ℕ}
    (hr : r < k) {u : Fin g.nodes.length} (hu : u ∈ g.ball v r)
    (same : ∀ x ∈ g.ball v (r + 1), labels'[(node x : ℕ)]? = labels[(x : ℕ)]?) :
    ((g.neighbours o u).map (markedLabel labels)).Perm
      ((h.neighbours o (node u)).map (markedLabel labels')) := by
  rw [← Multiset.coe_eq_coe, coe_map_neighbours, coe_map_neighbours, c.incidences r hr u hu,
    Multiset.map_map]
  refine Multiset.map_congr rfl fun e he => ?_
  obtain ⟨j, hj, rfl⟩ := mem_incidences.1 he
  have hfar : labels'[(node (farEnd u (g.ends j))).val]? = labels[(farEnd u (g.ends j)).val]? :=
    same _ (farEnd_mem_ball hu hj)
  simp only [Function.comp_apply, heardFrom, Prod.map_fst, Prod.map_snd, id_eq,
    farEnd_map node hj, hfar]

/-- After `j` rounds the nodes that are at least `j` steps away from the rim have the same labels as
their counterparts: what a node hears in a round comes from one step further. -/
theorem label_eq (c : LooksLike o g h node v w k) (j : ℕ) {r : ℕ} (hr : r + j ≤ k)
    {u : Fin g.nodes.length} (hu : u ∈ g.ball v r) :
    (h.labelsAfter o j)[(node u : ℕ)]? = (g.labelsAfter o j)[(u : ℕ)]? := by
  induction j generalizing r u with
  | zero => exact c.start_label u (ball_mono hr hu)
  | succ j ih =>
    have own : (h.labelsAfter o j)[(node u : ℕ)]? = (g.labelsAfter o j)[(u : ℕ)]? :=
      ih (by omega) hu
    have around := c.neighbours_perm (by omega) hu fun x hx => ih (r := r + 1) (by omega) hx
    rw [getElem?_labelsAfter_succ h o (node u).2, getElem?_labelsAfter_succ g o u.2, own]
    simp only [roundText_eq_of_perm _ around]

end LooksLike

/-- **Locality of the histories.** If a node looks like a node of another graph as far as `k` steps,
the histories of the two nodes have the same first `k` entries, whatever the graphs are beyond. -/
theorem take_histories_eq_of_looksLike {o : HashOptions} {g h : Graph}
    {node : Fin g.nodes.length → Fin h.nodes.length} {v : Fin g.nodes.length}
    {w : Fin h.nodes.length} {k : ℕ} (hk : k ≤ o.iterations)
    (c : LooksLike o g h node v w k) :
    ∃ s t, (g.histories o).get? (g.node v).id = some s ∧
      (h.histories o).get? (h.node w).id = some t ∧
      s.length = o.iterations ∧ t.length = o.iterations ∧ s.take k = t.take k := by
  refine ⟨_, _, get?_histories g o v, get?_histories h o w, by simp, by simp, ?_⟩
  rw [← List.map_take, ← List.map_take, List.take_range, Nat.min_eq_left hk]
  refine List.map_congr_left fun j hj => ?_
  have hj' : 0 + (j + 1) ≤ k := by
    have := List.mem_range.1 hj
    omega
  rw [← c.label_eq (j + 1) hj' (Finset.mem_singleton_self v), c.centre]

/-- A function that calls another one twice, which calls itself and a third, which calls a
fourth. -/
def callsAhead : Graph where
  nodes := [⟨"m", .ofLabel "main"⟩, ⟨"w", .ofLabel "work"⟩, ⟨"l", .ofLabel "log"⟩,
    ⟨"p", .ofLabel "print"⟩]
  arcs := [⟨0, 1, .ofLabel "call"⟩, ⟨0, 1, .ofLabel "call"⟩, ⟨1, 1, .ofLabel "rec"⟩,
    ⟨1, 2, .ofLabel "call"⟩, ⟨2, 3, .ofLabel "call"⟩]
  nodup_ids := by decide
  arcs_inside := by decide

/-- The same in another order as far as the third function, which here calls two others. -/
def callsElsewhere : Graph where
  nodes := [⟨"1", .ofLabel "send"⟩, ⟨"2", .ofLabel "log"⟩, ⟨"3", .ofLabel "work"⟩,
    ⟨"4", .ofLabel "main"⟩, ⟨"5", .ofLabel "close"⟩]
  arcs := [⟨1, 0, .ofLabel "call"⟩, ⟨1, 4, .ofLabel "call"⟩, ⟨2, 1, .ofLabel "call"⟩,
    ⟨2, 2, .ofLabel "rec"⟩, ⟨3, 2, .ofLabel "call"⟩, ⟨3, 2, .ofLabel "call"⟩]
  nodup_ids := by decide
  arcs_inside := by decide

/-- Where the functions stand in the other order. -/
def placeElsewhere : Fin callsAhead.nodes.length → Fin callsElsewhere.nodes.length :=
  (![3, 2, 1, 0] : Fin 4 → Fin 5)

theorem looksLike_callsElsewhere : LooksLike (HashSettings.options {}) callsAhead callsElsewhere
    placeElsewhere (0 : Fin 4) (3 : Fin 5) 2 where
  bijOn := by
    refine ⟨?_, ?_, ?_⟩
    · show ∀ x ∈ callsAhead.ball (0 : Fin 4) 2, _ ∈ callsElsewhere.ball (3 : Fin 5) 2
      decide
    · decide
    · show ∀ y ∈ callsElsewhere.ball (3 : Fin 5) 2, ∃ x ∈ callsAhead.ball (0 : Fin 4) 2, _ = y
      decide
  centre := rfl
  start_label := by decide
  incidences := by decide

/-- The first two entries of the history of a function do not see what is called three steps
ahead. -/
theorem take_histories_callsElsewhere :
    (2 ≤ (HashSettings.options {}).iterations ∧
      LooksLike (HashSettings.options {}) callsAhead callsElsewhere placeElsewhere
        (0 : Fin 4) (3 : Fin 5) 2) ∧
      ∃ s t, (callsAhead.histories (HashSettings.options {})).get? "m" = some s ∧
        (callsElsewhere.histories (HashSettings.options {})).get? "4" = some t ∧
        s.length = 3 ∧ t.length = 3 ∧ s.take 2 = t.take 2 :=
  ⟨⟨by decide, looksLike_callsElsewhere⟩,
    take_histories_eq_of_looksLike (by decide) looksLike_callsElsewhere⟩

end Graph

end GraphCompare
