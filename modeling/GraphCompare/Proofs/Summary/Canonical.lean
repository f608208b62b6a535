import Mathlib
import GraphCompare.Proofs.Hash.Correspondence
import GraphCompare.Proofs.Summary.Superedges

/-!
# A summary does not depend on ids and order

Two graphs match for a summary if their nodes correspond one to one, corresponding nodes have the
same texts of the chosen attributes, and an edge of some type leads from one node to another exactly
if one of that type leads between the corresponding nodes (`Graph.Matches`). How many such edges
there are plays no part.

A numbering of keys that correspond gives corresponding nodes the same numbers, since it goes by the
set of the keys alone (`Graph.Matches.carries_numbering`). So every round of the refinement keeps
the numbers of corresponding nodes the same (`Graph.Matches.carries_split`), the rounds stop at the
same time (`Graph.Matches.carries_refineWithin`), and the supernodes and superedges that are drawn
from these numbers are the same (`Graph.summary_eq_of_matches`).
-/

namespace GraphCompare

open Std

/-- Only the set of the keys counts for the distinct ones in order. -/
theorem distinctKeys_congr {κ : Type} [Ord κ] [TransOrd κ] [LawfulEqOrd κ] {keys keys' : List κ}
    (h : ∀ k, k ∈ keys ↔ k ∈ keys') : distinctKeys keys = distinctKeys keys' := by
  rw [distinctKeys, distinctKeys]
  refine congrArg SortedSet.toList (SortedSet.ext_mem fun k => ?_)
  exact mem_distinctKeys.trans ((h k).trans mem_distinctKeys.symm)

namespace Graph

/-- The edges of a graph by position, with their types and without their multiplicity. -/
def typedLinks (g : Graph) (s : SummarySettings) :
    Set (Fin g.nodes.length × Fin g.nodes.length × Key) :=
  {x | ∃ k, (g.source k, g.target k, g.edgeType s k) = x}

/-- Two graphs match along a bijection of their nodes, up to what a summary looks at. -/
structure Matches (s : SummarySettings) (g h : Graph)
    (node : Fin g.nodes.length ≃ Fin h.nodes.length) : Prop where
  key : ∀ i, h.nodeKey s (node i) = g.nodeKey s i
  links : h.typedLinks s = Prod.map node (Prod.map node id) '' g.typedLinks s

namespace Matches

variable {s : SummarySettings} {g h : Graph} {node : Fin g.nodes.length ≃ Fin h.nodes.length}

/-- An edge leads between nodes exactly if one of its type leads between the corresponding nodes. -/
theorem mem_typedLinks (m : Matches s g h node) {i j : Fin g.nodes.length} {t : Key} :
    (node i, node j, t) ∈ h.typedLinks s ↔ (i, j, t) ∈ g.typedLinks s := by
  have inj : Function.Injective (Prod.map node (Prod.map node (id : Key → Key))) :=
    node.injective.prodMap (node.injective.prodMap Function.injective_id)
  rw [m.links]
  exact inj.mem_set_image (a := (i, j, t))

end Matches

/-- What a node reaches is read off the edges. -/
theorem mem_reached {g : Graph} {s : SummarySettings} {α : Type} {part : Fin g.nodes.length → α}
    {i : Fin g.nodes.length} {t : Key} {x : α} :
    (t, x) ∈ g.reached s part i ↔ ∃ j, (i, j, t) ∈ g.typedLinks s ∧ part j = x := by
  constructor
  · rintro ⟨k, rfl, hk⟩
    simp only [Prod.mk.injEq] at hk
    obtain ⟨rfl, rfl⟩ := hk
    exact ⟨_, ⟨k, rfl⟩, rfl⟩
  · rintro ⟨j, ⟨k, hk⟩, rfl⟩
    simp only [Prod.mk.injEq] at hk
    obtain ⟨rfl, rfl, rfl⟩ := hk
    exact ⟨k, rfl, rfl⟩

end Graph

/-! ## Numbers of corresponding nodes -/

/-- Two partitions give corresponding nodes the same number. -/
structure Partition.Carries {m n : ℕ} (node : Fin m ≃ Fin n) (p q : Partition) : Prop where
  length : p.length = m
  length' : q.length = n
  groupOf : ∀ i, q.groupOf (node i) = p.groupOf i

namespace Partition

variable {m n : ℕ} {node : Fin m ≃ Fin n}

/-- Keys that correspond are numbered alike. -/
theorem carries_numbering {κ : Type} [Ord κ] [TransOrd κ] [LawfulEqOrd κ] {keys keys' : List κ}
    (hl : keys.length = m) (hl' : keys'.length = n)
    (h : ∀ i : Fin m, keys'[(node i : ℕ)]? = keys[(i : ℕ)]?) :
    Carries node (numbering keys) (numbering keys') := by
  refine ⟨by simp [hl], by simp [hl'], fun i => ?_⟩
  have hi : (i : ℕ) < keys.length := i.2.trans_eq hl.symm
  have hi' : (node i : ℕ) < keys'.length := (node i).2.trans_eq hl'.symm
  have key : keys'[(node i : ℕ)] = keys[(i : ℕ)] := by
    have := h i
    rwa [List.getElem?_eq_getElem hi, List.getElem?_eq_getElem hi', Option.some.injEq] at this
  have distinct : distinctKeys keys' = distinctKeys keys :=
    distinctKeys_congr fun _ => (perm_of_equiv node hl hl' h).mem_iff.symm
  rw [groupOf_numbering hi', groupOf_numbering hi, key, distinct]

variable {p q : Partition}

/-- The numbers are the same, in another order. -/
theorem Carries.perm (c : Carries node p q) : p.Perm q := by
  refine perm_of_equiv node c.length c.length' fun i => ?_
  have hi : (i : ℕ) < p.length := i.2.trans_eq c.length.symm
  have hi' : (node i : ℕ) < q.length := (node i).2.trans_eq c.length'.symm
  have := c.groupOf i
  rw [groupOf_eq_getElem hi, groupOf_eq_getElem hi'] at this
  rw [List.getElem?_eq_getElem hi, List.getElem?_eq_getElem hi', this]

/-- So there are as many groups. -/
theorem Carries.groupCount (c : Carries node p q) : q.groupCount = p.groupCount := by
  rw [groupCount_eq_card, groupCount_eq_card, List.toFinset_eq_of_perm _ _ c.perm]

end Partition

namespace Graph.Matches

open GraphCompare.Partition (Carries)

variable {s : SummarySettings} {g h : Graph} {node : Fin g.nodes.length ≃ Fin h.nodes.length}
  {p q : Partition}

/-- Corresponding nodes reach the same groups. -/
theorem signature_eq (m : Matches s g h node) (c : Carries node p q) (i : Fin g.nodes.length) :
    q.signature (h.typedArcs s) (node i) = p.signature (g.typedArcs s) i := by
  refine SortedSet.ext_mem fun ⟨t, x⟩ => ?_
  rw [Partition.mem_signature, Partition.mem_signature, mem_reached, mem_reached]
  constructor
  · rintro ⟨j, hj, rfl⟩
    obtain ⟨j, rfl⟩ := node.surjective j
    exact ⟨j, m.mem_typedLinks.1 hj, (c.groupOf j).symm⟩
  · rintro ⟨j, hj, rfl⟩
    exact ⟨node j, m.mem_typedLinks.2 hj, c.groupOf j⟩

/-- A round keeps the numbers of corresponding nodes the same. -/
theorem carries_split (m : Matches s g h node) (c : Carries node p q) :
    Carries node (p.split (g.typedArcs s)) (q.split (h.typedArcs s)) := by
  refine Partition.carries_numbering (by simp [c.length]) (by simp [c.length']) fun i => ?_
  have hi : (i : ℕ) < p.length := i.2.trans_eq c.length.symm
  have hi' : (node i : ℕ) < q.length := (node i).2.trans_eq c.length'.symm
  have number := c.groupOf i
  rw [Partition.groupOf_eq_getElem hi, Partition.groupOf_eq_getElem hi'] at number
  simp [hi, hi', number, m.signature_eq c i]

/-- All rounds do, and they stop at the same time. -/
theorem carries_refineWithin (m : Matches s g h node) (c : Carries node p q) (rounds : ℕ) :
    Carries node (p.refineWithin (g.typedArcs s) rounds)
      (q.refineWithin (h.typedArcs s) rounds) := by
  induction rounds generalizing p q with
  | zero => exact c
  | succ rounds ih =>
    have next := m.carries_split c
    simp only [Partition.refineWithin, next.groupCount, c.groupCount]
    split
    · exact next
    · exact ih next

/-- Corresponding nodes are in groups of the same number. -/
theorem carries_partition (m : Matches s g h node) :
    Carries node (g.partition s) (h.partition s) := by
  have start : Carries node (numbering (g.nodes.map fun n => n.attributes.key s.nodeAttributes))
      (numbering (h.nodes.map fun n => n.attributes.key s.nodeAttributes)) := by
    refine Partition.carries_numbering (by simp) (by simp) fun i => ?_
    have := m.key i
    rw [← key_node, ← key_node] at this
    simpa [Graph.node] using this
  -- both graphs have the same number of nodes, and so of rounds
  have size : h.nodes.length = g.nodes.length := (Fin.equiv_iff_eq.1 ⟨node⟩).symm
  have rounds : h.partition s = Partition.refineWithin (h.typedArcs s) (g.nodes.length + 1)
      (numbering (h.nodes.map fun n => n.attributes.key s.nodeAttributes)) := by
    rw [partition, Partition.refine, List.length_map, size]
  rw [rounds, partition, Partition.refine, List.length_map]
  exact m.carries_refineWithin start _

/-! ## What is drawn -/

/-- Edges of the same types lead between groups of the same numbers. -/
theorem typesBetween_eq (m : Matches s g h node) (x : ℕ × ℕ) :
    h.typesBetween s x = g.typesBetween s x := by
  have c := m.carries_partition
  have ofLinks : ∀ (g : Graph) (t : Key), t ∈ g.typesBetween s x ↔ ∃ i j,
      (i, j, t) ∈ g.typedLinks s ∧
        ((g.partition s).groupOf i, (g.partition s).groupOf j) = x := by
    intro g t
    constructor
    · rintro ⟨k, hx, rfl⟩
      exact ⟨_, _, ⟨k, rfl⟩, hx⟩
    · rintro ⟨i, j, ⟨k, hk⟩, hx⟩
      simp only [Prod.mk.injEq] at hk
      obtain ⟨rfl, rfl, rfl⟩ := hk
      exact ⟨k, hx, rfl⟩
  ext t
  rw [ofLinks, ofLinks]
  constructor
  · rintro ⟨i, j, hij, hx⟩
    obtain ⟨i, rfl⟩ := node.surjective i
    obtain ⟨j, rfl⟩ := node.surjective j
    rw [c.groupOf, c.groupOf] at hx
    exact ⟨i, j, m.mem_typedLinks.1 hij, hx⟩
  · rintro ⟨i, j, hij, hx⟩
    rw [← c.groupOf, ← c.groupOf] at hx
    exact ⟨node i, node j, m.mem_typedLinks.2 hij, hx⟩

/-- So the superedges are the same. -/
theorem superedges_eq (m : Matches s g h node) : h.superedges s = g.superedges s := by
  refine SortedMap.ext_get? fun x => Option.ext fun types => ?_
  rw [get?_superedges, get?_superedges, m.typesBetween_eq]

/-- A group has corresponding members. -/
theorem mem_groupIds_iff (m : Matches s g h node) {group : ℕ} {id : NodeId} :
    id ∈ h.groupIds s group ↔
      ∃ i, (g.node i).id ∈ g.groupIds s group ∧ (h.node (node i)).id = id := by
  have c := m.carries_partition
  rw [mem_groupIds]
  constructor
  · rintro ⟨j, hj, rfl⟩
    obtain ⟨i, rfl⟩ := node.surjective j
    exact ⟨i, id_mem_groupIds.2 ((c.groupOf i).symm.trans hj), rfl⟩
  · rintro ⟨i, hi, rfl⟩
    exact ⟨node i, (c.groupOf i).trans (id_mem_groupIds.1 hi), rfl⟩

end Graph.Matches

namespace Graph

variable {s : SummarySettings} {g h : Graph} {node : Fin g.nodes.length ≃ Fin h.nodes.length}

/-- Apart from its members, a supernode has what the key of any of them stands for. -/
theorem get?_supernode_of_mem {group : ℕ} {i : Fin g.nodes.length}
    (hi : (g.partition s).groupOf i = group) {name : String} (hname : name ≠ "group") :
    (supernode s (((g.partition s).members group).filterMap (g.nodes[·]?))).get? name =
      (Key.attributes s.nodeAttributes (g.nodeKey s i)).get? name := by
  have listed : (g.node i).id ∈ g.groupIds s group := id_mem_groupIds.2 hi
  rw [groupIds] at listed
  cases members : ((g.partition s).members group).filterMap (g.nodes[·]?) with
  | nil => simp [members] at listed
  | cons first rest =>
    -- the first member has the key of every member
    have mem : first.id ∈ g.groupIds s group := by simp [groupIds, members]
    obtain ⟨j, hj, hid⟩ := mem_groupIds.1 mem
    have first_eq : first = g.node j := by
      have : first ∈ ((g.partition s).members group).filterMap (g.nodes[·]?) := by simp [members]
      obtain ⟨k, -, hk⟩ := List.mem_filterMap.1 this
      obtain ⟨hlt, rfl⟩ := List.getElem?_eq_some_iff.1 hk
      exact congrArg g.node (id_inj.1 hid.symm)
    have key := (g.approximates_partition s).1.key j i (hj.trans hi.symm)
    rw [supernode.eq_def, Attributes.get?_insert, if_neg (by simpa using hname), ← key, ← key_node,
      first_eq]

/-- Two supernodes are the same but for the ids that they list, and these correspond. -/
structure SameSupernode (node : Fin g.nodes.length ≃ Fin h.nodes.length) (a b : Node) : Prop where
  id : b.id = a.id
  attributes : ∀ name, name ≠ "group" → b.attributes.get? name = a.attributes.get? name
  members : ∃ ids ids', a.group? = some ids ∧ b.group? = some ids' ∧
    ∀ id, id ∈ ids' ↔ ∃ i, (g.node i).id ∈ ids ∧ (h.node (node i)).id = id

/-- **A summary is canonical.** Graphs that match for a summary have the same supernodes in the same
order, but for the ids that these list, which are those of corresponding nodes; and they have the
same superedges in the same order. -/
theorem summary_eq_of_matches (m : Matches s g h node) :
    List.Forall₂ (SameSupernode node) (g.summary s).nodes (h.summary s).nodes ∧
      (h.summary s).edges = (g.summary s).edges := by
  constructor
  · rw [nodes_summary, nodes_summary, m.carries_partition.groupCount, List.forall₂_map_left_iff,
      List.forall₂_map_right_iff, List.forall₂_same]
    intro group hgroup
    have hmem := ((g.approximates_partition s).1.dense group).2 (List.mem_range.1 hgroup)
    obtain ⟨i, hi⟩ := (Partition.mem_iff_groupOf (length_partition g s)).1 hmem
    have hi' := (m.carries_partition.groupOf i).trans hi
    refine ⟨rfl, fun name hname => ?_, _, _, group?_supernode .., group?_supernode .., ?_⟩
    · rw [get?_supernode_of_mem hi hname, get?_supernode_of_mem hi' hname, m.key]
    · exact fun _ => m.mem_groupIds_iff
  · rw [edges_summary, edges_summary, superlinks, superlinks, m.superedges_eq]

/-- Two arguments of one call. -/
def twoArguments : Graph where
  nodes := [⟨"x", .ofLabel "arg"⟩, ⟨"y", .ofLabel "arg"⟩, ⟨"z", .ofLabel "call"⟩]
  arcs := [⟨0, 2, .ofLabel "ast"⟩, ⟨1, 2, .ofLabel "ast"⟩]
  nodup_ids := by decide
  arcs_inside := by simp

/-- The same with other ids, in another order, and with one edge twice. -/
def twoArgumentsAnew : Graph where
  nodes := [⟨"call", .ofLabel "call"⟩, ⟨"first", .ofLabel "arg"⟩, ⟨"second", .ofLabel "arg"⟩]
  arcs := [⟨2, 0, .ofLabel "ast"⟩, ⟨1, 0, .ofLabel "ast"⟩, ⟨2, 0, .ofLabel "ast"⟩]
  nodup_ids := by decide
  arcs_inside := by simp

/-- Both are drawn as one supernode for the arguments and one for the call. -/
theorem summary_twoArguments :
    Matches {} twoArguments twoArgumentsAnew (finRotate 3) ∧
      List.Forall₂ (SameSupernode (g := twoArguments) (h := twoArgumentsAnew) (finRotate 3))
        (twoArguments.summary {}).nodes (twoArgumentsAnew.summary {}).nodes ∧
      (twoArgumentsAnew.summary {}).edges = (twoArguments.summary {}).edges := by
  have m : Matches {} twoArguments twoArgumentsAnew (finRotate 3) := by
    constructor
    · decide
    · ext x
      constructor
      · rintro ⟨k, rfl⟩
        change Fin 3 at k
        fin_cases k
        · exact ⟨_, ⟨(1 : Fin 2), rfl⟩, rfl⟩
        · exact ⟨_, ⟨(0 : Fin 2), rfl⟩, rfl⟩
        · exact ⟨_, ⟨(1 : Fin 2), rfl⟩, rfl⟩
      · rintro ⟨_, ⟨k, rfl⟩, rfl⟩
        change Fin 2 at k
        fin_cases k
        · exact ⟨(1 : Fin 3), rfl⟩
        · exact ⟨(0 : Fin 3), rfl⟩
  exact ⟨m, summary_eq_of_matches m⟩

end Graph

end GraphCompare
