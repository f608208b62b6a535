import Mathlib
import GraphCompare.Proofs.Graph.Listing
import GraphCompare.Proofs.Summary.Groups

/-!
# The superedges of a summary

The types of the edges between groups are gathered edge by edge. In the end two groups have an entry
exactly if an edge leads from one to the other, and the entry is the set of the types of those edges
(`Graph.get?_superedges`). Every entry is between groups that have a supernode, so no superedge is
refused, and the edges of a summary are the entries in their order (`Graph.edges_summary`).
-/

namespace GraphCompare

/-- Gathering elements under keys: a key has an entry if an element has the key, and the entry is
the set of what the elements with the key hold. -/
theorem SortedMap.get?_gather {κ τ α : Type} [Ord κ] [Std.TransOrd κ] [Std.LawfulEqOrd κ]
    [BEq κ] [LawfulBEq κ] [Ord τ] [Std.TransOrd τ] [Std.LawfulEqOrd τ] (key : α → κ) (held : α → τ)
    (l : List α) (k : κ) :
    (l.foldl (fun m a => m.alter (key a) fun types => (types.getD .empty).insert (held a))
      (empty : SortedMap κ (SortedSet τ))).get? k =
      if l.any (key · == k) then some (.ofList ((l.filter (key · == k)).map held)) else none := by
  induction l using List.reverseRecOn with
  | nil => rfl
  | append_singleton l a ih =>
    rw [List.foldl_append, List.foldl_cons, List.foldl_nil, get?_alter]
    by_cases hk : k = key a
    · subst hk
      have before : ∀ t, t ∈ ((l.foldl (fun m a => m.alter (key a) fun types =>
          (types.getD .empty).insert (held a)) (empty : SortedMap κ (SortedSet τ))).get?
            (key a)).getD .empty ↔ t ∈ (l.filter (key · == key a)).map held := by
        intro t
        rw [ih]
        split
        case isTrue => exact SortedSet.mem_ofList
        case isFalse none =>
          have nothing : l.filter (key · == key a) = [] := by
            rw [List.filter_eq_nil_iff]
            intro b hb hkey
            exact none (List.any_eq_true.2 ⟨b, hb, hkey⟩)
          rw [nothing]
          exact Iff.rfl
      simp only [beq_self_eq_true, if_true, List.any_append, List.any_cons, List.any_nil,
        Bool.or_false, Bool.or_true]
      refine congrArg some (SortedSet.ext_mem fun t => ?_)
      rw [← SortedSet.mem_def, ← SortedSet.mem_def, SortedSet.mem_insert, SortedSet.mem_ofList,
        before]
      simp only [List.filter_append, List.map_append, List.mem_append, List.filter_cons,
        beq_self_eq_true, if_true, List.filter_nil, List.map_cons, List.map_nil,
        List.mem_singleton]
      exact or_comm
    · have other : (key a == k) = false := beq_eq_false_iff_ne.2 (Ne.symm hk)
      have other' : (k == key a) = false := beq_eq_false_iff_ne.2 hk
      simp only [other', other, ih, List.any_append, List.any_cons, List.any_nil, Bool.or_false,
        List.filter_append, List.filter_cons, List.filter_nil, List.append_nil, Bool.false_eq_true,
        if_false]

namespace Graph

variable (g : Graph) (s : SummarySettings)

/-- The groups that a typed arc joins. -/
def groupsOf (a : TypedArc) : ℕ × ℕ :=
  ((g.partition s).groupOf a.source, (g.partition s).groupOf a.target)

/-- The types of the edges that lead from one group to another. -/
def typesBetween (x : ℕ × ℕ) : Set Key :=
  {t | ∃ k, ((g.partition s).groupOf (g.source k), (g.partition s).groupOf (g.target k)) = x ∧
    g.edgeType s k = t}

variable {g s}

theorem mem_typesBetween {x : ℕ × ℕ} {t : Key} :
    t ∈ g.typesBetween s x ↔ ∃ a ∈ g.typedArcs s, g.groupsOf s a = x ∧ a.type = t := by
  constructor
  · rintro ⟨k, hx, rfl⟩
    exact ⟨_, (mem_typedArcs g s).2 ⟨k, rfl⟩, hx, rfl⟩
  · rintro ⟨a, ha, hx, rfl⟩
    obtain ⟨k, rfl⟩ := (mem_typedArcs g s).1 ha
    exact ⟨k, hx, rfl⟩

/-- Two groups have a superedge if an edge leads from one to the other, and the superedge has the
types of those edges. -/
theorem get?_superedges {x : ℕ × ℕ} {types : SortedSet Key} :
    (g.superedges s).get? x = some types ↔
      (g.typesBetween s x).Nonempty ∧ ∀ t, t ∈ types ↔ t ∈ g.typesBetween s x := by
  have gathered : (g.superedges s).get? x = if (g.typedArcs s).any (g.groupsOf s · == x) then
      some (.ofList (((g.typedArcs s).filter (g.groupsOf s · == x)).map TypedArc.type))
      else none :=
    SortedMap.get?_gather (g.groupsOf s) TypedArc.type (g.typedArcs s) x
  have any : (g.typedArcs s).any (g.groupsOf s · == x) ↔ (g.typesBetween s x).Nonempty := by
    rw [List.any_eq_true]
    constructor
    · rintro ⟨a, ha, hx⟩
      exact ⟨_, mem_typesBetween.2 ⟨a, ha, beq_iff_eq.1 hx, rfl⟩⟩
    · rintro ⟨t, ht⟩
      obtain ⟨a, ha, hx, -⟩ := mem_typesBetween.1 ht
      exact ⟨a, ha, beq_iff_eq.2 hx⟩
  have mem : ∀ t, t ∈ SortedSet.ofList
      (((g.typedArcs s).filter (g.groupsOf s · == x)).map TypedArc.type) ↔
        t ∈ g.typesBetween s x := by
    intro t
    rw [SortedSet.mem_ofList, mem_typesBetween, List.mem_map]
    simp only [List.mem_filter, beq_iff_eq, and_assoc]
  rw [gathered]
  split
  case isTrue some =>
    rw [Option.some.injEq]
    constructor
    · rintro rfl
      exact ⟨any.1 some, mem⟩
    · rintro ⟨-, htypes⟩
      exact SortedSet.ext_mem fun t => (mem t).trans (htypes t).symm
  case isFalse none =>
    constructor
    · rintro ⟨⟩
    · rintro ⟨nonempty, -⟩
      exact absurd (any.2 nonempty) none

/-- Groups with a superedge have a supernode. -/
theorem lt_groupCount_of_mem_superedges {e : (ℕ × ℕ) × SortedSet Key}
    (he : e ∈ (g.superedges s).entries) :
    e.1.1 < (g.partition s).groupCount ∧ e.1.2 < (g.partition s).groupCount := by
  have found : (g.superedges s).get? e.1 = some e.2 :=
    (g.superedges s).increasing.mem_iff_lookup.1 he
  obtain ⟨⟨t, k, hk, -⟩, -⟩ := get?_superedges.1 found
  rw [← hk]
  exact ⟨groupOf_lt_groupCount _, groupOf_lt_groupCount _⟩

/-- The superedges, by the ids of the supernodes that they join. -/
def superlinks (g : Graph) (s : SummarySettings) : List (NodeId × NodeId × Attributes) :=
  (g.superedges s).entries.map fun e =>
    (supernodeId e.1.1, supernodeId e.1.2, superedge s e.2)

/-- The supernodes of a summary, before it has any superedges. -/
def supernodes (g : Graph) (s : SummarySettings) : Graph :=
  (List.range (g.partition s).groupCount).foldl (fun h group =>
    h.ensureNode (supernodeId group)
      (supernode s (((g.partition s).members group).filterMap (g.nodes[·]?)))) empty

theorem ids_supernodes (g : Graph) (s : SummarySettings) :
    (g.supernodes s).nodes.map Node.id =
      (List.range (g.partition s).groupCount).map supernodeId := by
  rw [supernodes, nodes_foldl_ensureNode supernodeId_injective, List.map_map]
  rfl

/-- Every superedge joins two supernodes, so adding them is not refused. -/
theorem foldlM_superlinks (g : Graph) (s : SummarySettings) :
    ((g.superlinks s).map fun e => Addition.addEdge e.1 e.2.1 e.2.2).foldlM add
        (g.supernodes s) = .ok (g.summary s) ∧
      (g.summary s).edges = numbered 0 (g.superlinks s) := by
  have joined : (g.superlinks s).findSome?
      (fun e => missingEnd? ((g.supernodes s).nodes.map Node.id) e.1 e.2.1) = none := by
    rw [List.findSome?_eq_none_iff]
    intro link hlink
    obtain ⟨e, he, rfl⟩ := List.mem_map.1 hlink
    have known : ∀ group < (g.partition s).groupCount,
        supernodeId group ∈ (g.supernodes s).nodes.map Node.id := by
      intro group hgroup
      rw [ids_supernodes]
      exact List.mem_map_of_mem (List.mem_range.2 hgroup)
    obtain ⟨hs, ht⟩ := lt_groupCount_of_mem_superedges he
    simp only [missingEnd?, known _ hs, known _ ht, not_true_eq_false, if_false]
  have added := foldlM_addEdge (g.superlinks s) (g.supernodes s)
  rw [joined] at added
  obtain ⟨h, hh, -, edges⟩ := added
  have made : g.summary s = h := by
    rw [← foldl_after_of_foldlM hh, superlinks, List.map_map, List.foldl_map]
    rfl
  have arcs : (g.supernodes s).arcs = [] := arcs_foldl_ensureNode _ _ _ _
  refine ⟨made ▸ hh, ?_⟩
  rw [made, edges, Graph.edges, edgeCount, arcs]
  rfl

/-- The edges of a summary are the superedges, in the order of the groups that they join. -/
theorem edges_summary (g : Graph) (s : SummarySettings) :
    (g.summary s).edges = numbered 0 (g.superlinks s) :=
  (foldlM_superlinks g s).2

end Graph

end GraphCompare
