import Mathlib
import GraphCompare.Proofs.Graph.Incidence
import GraphCompare.Proofs.Summary.Refinement

/-!
# The groups of a summary

The nodes of a summary are its supernodes, one for each group of the partition and in the order of
their numbers (`Graph.nodes_summary`); the superedges only add arcs. A supernode lists the ids of
the members of its group (`Node.group?`). Since every node has exactly one number and every number
below the number of groups is some node's, the lists cut the ids of the graph into parts
(`Graph.flatten_groups_perm`, `Graph.groupIds_ne_nil`), and two nodes are listed together exactly if
they are in one group (`Graph.listed_together_iff`). So the lists are the classes of the coarsest
stable partition (`Graph.summary_coarsest`).
-/

namespace GraphCompare

/-- The text that a value is. -/
def Value.string? : Value → Option String
  | string s => some s
  | _ => none

/-- Texts that were made values are read back. -/
theorem Value.mapM_string? (l : List String) :
    (l.map Value.string).mapM Value.string? = some l := by
  induction l with
  | nil => rfl
  | cons s rest ih => rw [List.map_cons, List.mapM_cons, ih]; rfl

/-- The ids that a node lists as its group, if it lists ids there. -/
def Node.group? (n : Node) : Option (List NodeId) :=
  match n.attributes.get? "group" with
  | some (.list items) => items.mapM Value.string?
  | _ => none

/-- The id of a supernode shows its number. -/
theorem supernodeId_eq (group : ℕ) : supernodeId group = "Supernode-" ++ toString group := by
  rw [supernodeId, Decimal.integerText_natCast]
  rfl

theorem supernodeId_injective : Function.Injective supernodeId := by
  intro a b h
  rw [supernodeId_eq, supernodeId_eq, String.append_right_inj] at h
  exact Nat.repr_injective h

namespace Graph

/-- A supernode lists the ids of its members. -/
theorem group?_supernode (s : SummarySettings) (id : NodeId) (members : List Node) :
    (Node.mk id (supernode s members)).group? = some (members.map Node.id) := by
  have hget : (supernode s members).get? "group" =
      some (.list ((members.map Node.id).map .string)) := by
    rw [supernode.eq_def, Attributes.get?_insert, if_pos (beq_self_eq_true _)]
    simp [OrderedValue.list, OrderedValue.string]
  rw [Node.group?, hget]
  exact Value.mapM_string? _

/-- What keeps the nodes at every step keeps them in the end. -/
theorem nodes_foldl_of_step {α : Type} {step : Graph → α → Graph}
    (hstep : ∀ h x, (step h x).nodes = h.nodes) (l : List α) (h : Graph) :
    (l.foldl step h).nodes = h.nodes := by
  induction l generalizing h with
  | nil => rfl
  | cons x rest ih => rw [List.foldl_cons, ih, hstep]

/-- Nodes that are ensured under distinct ids are all added. -/
theorem nodes_foldl_ensureNode {ids : ℕ → NodeId} (inj : Function.Injective ids)
    (bag : ℕ → Attributes) (k : ℕ) :
    ((List.range k).foldl (fun h n => h.ensureNode (ids n) (bag n)) empty).nodes =
      (List.range k).map fun n => ⟨ids n, bag n⟩ := by
  induction k with
  | zero => rfl
  | succ k ih =>
    rw [List.range_succ, List.foldl_append, List.foldl_cons, List.foldl_nil, nodes_ensureNode, ih]
    split
    case isTrue hc =>
      have hm := mem_ids_of_contains hc
      rw [ih, List.map_map, List.mem_map] at hm
      obtain ⟨n, hn, hid⟩ := hm
      have := List.mem_range.1 hn
      have := inj hid
      omega
    case isFalse hc => rw [List.map_append]; rfl

/-- The nodes of a summary are the supernodes of the groups, in the order of their numbers. -/
theorem nodes_summary (g : Graph) (s : SummarySettings) :
    (g.summary s).nodes = (List.range (g.partition s).groupCount).map fun group =>
      ⟨supernodeId group,
        supernode s (((g.partition s).members group).filterMap (g.nodes[·]?))⟩ := by
  rw [summary, nodes_foldl_of_step]
  · exact nodes_foldl_ensureNode supernodeId_injective _ _
  · intro h ⟨⟨source, target⟩, types⟩
    cases hadd : h.addEdge (supernodeId source) (supernodeId target) (superedge s types) with
    | error e => simp [hadd]
    | ok h' =>
      obtain ⟨_, _, _, _, hnodes, _⟩ := addEdge_eq_ok.1 hadd
      simpa [hadd] using hnodes

end Graph

namespace Partition

/-- The members of a group are the positions with its number. -/
theorem mem_members {p : Partition} {group i : ℕ} :
    i ∈ p.members group ↔ i < p.length ∧ p.groupOf i = group := by
  simp only [members, List.mem_map, List.mem_filter, Prod.exists, exists_eq_right,
    List.mem_zipIdx_iff_getElem?, List.getElem?_eq_some_iff, beq_iff_eq]
  constructor
  · rintro ⟨hi, hx⟩
    exact ⟨hi, (groupOf_eq_getElem hi).trans hx⟩
  · rintro ⟨hi, rfl⟩
    exact ⟨hi, (groupOf_eq_getElem hi).symm⟩

/-- The members of a group are listed in the order of the positions. -/
theorem members_sublist (p : Partition) (group : ℕ) :
    (p.members group).Sublist (List.range p.length) := by
  have hmap : p.zipIdx.map Prod.snd = List.range p.length := by
    rw [List.zipIdx_map_snd, List.range_eq_range']
  rw [members, ← hmap]
  exact List.filter_sublist.map _

end Partition

/-- The elements of a list, looked up one after the other. -/
theorem filterMap_getElem?_range {α : Type} (l : List α) :
    (List.range l.length).filterMap (l[·]?) = l := by
  induction l using List.reverseRecOn with
  | nil => rfl
  | append_singleton l a ih =>
    have earlier : (List.range l.length).filterMap ((l ++ [a])[·]?) =
        (List.range l.length).filterMap (l[·]?) := by
      refine List.filterMap_congr fun i hi => ?_
      rw [List.getElem?_append_left (List.mem_range.1 hi)]
    rw [List.length_append, List.length_singleton, List.range_succ, List.filterMap_append, earlier,
      ih]
    simp

namespace Graph

variable (g : Graph) (s : SummarySettings)

/-- The ids of the members of a group. -/
def groupIds (group : ℕ) : List NodeId :=
  (((g.partition s).members group).filterMap (g.nodes[·]?)).map Node.id

/-- The lists of ids of all groups. -/
def groups : List (List NodeId) := (List.range (g.partition s).groupCount).map (g.groupIds s)

theorem length_partition : (g.partition s).length = g.nodes.length :=
  (g.approximates_partition s).1.length

variable {g s}

/-- The ids of a group are those of the nodes with its number. -/
theorem mem_groupIds {group : ℕ} {id : NodeId} :
    id ∈ g.groupIds s group ↔
      ∃ i : Fin g.nodes.length, (g.partition s).groupOf i = group ∧ (g.node i).id = id := by
  rw [groupIds, List.mem_map]
  constructor
  · rintro ⟨n, hn, rfl⟩
    obtain ⟨i, hi, hget⟩ := List.mem_filterMap.1 hn
    obtain ⟨hlt, rfl⟩ := List.getElem?_eq_some_iff.1 hget
    exact ⟨⟨i, hlt⟩, (Partition.mem_members.1 hi).2, rfl⟩
  · rintro ⟨i, hi, rfl⟩
    have hmem := Partition.mem_members.2 ⟨i.2.trans_eq (length_partition g s).symm, hi⟩
    exact ⟨_, List.mem_filterMap.2 ⟨i, hmem, List.getElem?_eq_getElem i.2⟩, rfl⟩

/-- A node is listed in its own group and in no other. -/
theorem id_mem_groupIds {group : ℕ} {i : Fin g.nodes.length} :
    (g.node i).id ∈ g.groupIds s group ↔ (g.partition s).groupOf i = group := by
  rw [mem_groupIds]
  constructor
  · rintro ⟨j, hj, hid⟩
    rwa [id_inj.1 hid] at hj
  · intro h
    exact ⟨i, h, rfl⟩

/-- The ids of a group are listed in the order of the nodes. -/
theorem groupIds_sublist (group : ℕ) : (g.groupIds s group).Sublist (g.nodes.map Node.id) := by
  have hsub := ((g.partition s).members_sublist group).filterMap (g.nodes[·]?)
  rw [length_partition, filterMap_getElem?_range] at hsub
  exact hsub.map _

/-- A number below the number of groups is the number of some node's group. -/
theorem groupIds_ne_nil {group : ℕ} (h : group < (g.partition s).groupCount) :
    g.groupIds s group ≠ [] := by
  have hmem := ((g.approximates_partition s).1.dense group).2 h
  obtain ⟨i, hi⟩ := (Partition.mem_iff_groupOf (length_partition g s)).1 hmem
  exact List.ne_nil_of_mem (id_mem_groupIds.2 hi)

/-- The group of a node has a number below the number of groups. -/
theorem groupOf_lt_groupCount (i : Fin g.nodes.length) :
    (g.partition s).groupOf i < (g.partition s).groupCount :=
  ((g.approximates_partition s).1.dense _).1
    ((Partition.mem_iff_groupOf (length_partition g s)).2 ⟨i, rfl⟩)

/-- Two nodes are listed together exactly if they are in one group. -/
theorem listed_together_iff {i j : Fin g.nodes.length} :
    (∃ ids ∈ g.groups s, (g.node i).id ∈ ids ∧ (g.node j).id ∈ ids) ↔
      (g.partition s).kernel g i j := by
  constructor
  · rintro ⟨ids, hids, hi, hj⟩
    obtain ⟨group, _, rfl⟩ := List.mem_map.1 hids
    exact (id_mem_groupIds.1 hi).trans (id_mem_groupIds.1 hj).symm
  · intro h
    refine ⟨g.groupIds s ((g.partition s).groupOf i), ?_, ?_, ?_⟩
    · exact List.mem_map_of_mem (List.mem_range.2 (groupOf_lt_groupCount i))
    · exact id_mem_groupIds.2 rfl
    · exact id_mem_groupIds.2 (Partition.kernel_iff.1 h).symm

/-- The lists of the groups hold every id of the graph once. -/
theorem flatten_groups_perm : (g.groups s).flatten.Perm (g.nodes.map Node.id) := by
  refine (List.perm_ext_iff_of_nodup ?_ g.nodup_ids).2 ?_
  · rw [groups, ← List.flatMap_def, List.nodup_flatMap]
    constructor
    · intro group _
      exact g.nodup_ids.sublist (groupIds_sublist group)
    · refine List.nodup_range.imp fun {group group'} hne => ?_
      intro id hid hid'
      obtain ⟨i, hi, rfl⟩ := mem_groupIds.1 hid
      exact hne (hi.symm.trans (id_mem_groupIds.1 hid'))
  · intro id
    rw [List.mem_flatten]
    constructor
    · rintro ⟨ids, hids, hid⟩
      obtain ⟨group, _, rfl⟩ := List.mem_map.1 hids
      exact (groupIds_sublist group).subset hid
    · intro hid
      obtain ⟨n, hn, rfl⟩ := List.mem_map.1 hid
      obtain ⟨i, hi, rfl⟩ := List.getElem_of_mem hn
      have hgroup := List.mem_range.2 (groupOf_lt_groupCount (s := s) ⟨i, hi⟩)
      exact ⟨_, List.mem_map_of_mem hgroup, id_mem_groupIds (i := ⟨i, hi⟩).2 rfl⟩

/-- **A summary draws the coarsest stable partition.** Its nodes are `Supernode-0`, `Supernode-1`
and so on; each lists a group that is not empty, in the order of the nodes, and the lists hold every
id once. The nodes that are listed together form a partition that is stable and than which no stable
partition is coarser. -/
theorem summary_coarsest (g : Graph) (s : SummarySettings) :
    ∃ groups : List (List NodeId),
      (g.summary s).nodes.map Node.group? = groups.map some ∧
      (g.summary s).nodes.map Node.id =
        (List.range groups.length).map (fun k => "Supernode-" ++ toString k) ∧
      (∀ ids ∈ groups, ids ≠ [] ∧ ids.Sublist (g.nodes.map Node.id)) ∧
      groups.flatten.Perm (g.nodes.map Node.id) ∧
      ∃ r, IsGreatest {r | g.Stable s r} r ∧
        ∀ i j, r i j ↔ ∃ ids ∈ groups, (g.node i).id ∈ ids ∧ (g.node j).id ∈ ids := by
  refine ⟨g.groups s, ?_, ?_, ?_, flatten_groups_perm, (g.partition s).kernel g,
    g.isGreatest_partition s, fun i j => listed_together_iff.symm⟩
  · simp [nodes_summary, groups, group?_supernode, groupIds]
  · simp [nodes_summary, groups, supernodeId_eq]
  · intro ids hids
    obtain ⟨group, hgroup, rfl⟩ := List.mem_map.1 hids
    exact ⟨groupIds_ne_nil (List.mem_range.1 hgroup), groupIds_sublist group⟩

/-- Three arguments and a call. Two of the arguments belong to the call, one of them twice and with
a code that is null. -/
def arguments : Graph where
  nodes := [⟨"x", .ofLabel "arg"⟩, ⟨"f", .ofLabel "call"⟩,
    ⟨"y", (Attributes.ofLabel "arg").insert "CODE" ⟨.null, trivial⟩⟩, ⟨"z", .ofLabel "arg"⟩]
  arcs := [⟨0, 1, .ofLabel "ast"⟩, ⟨2, 1, .ofLabel "ast"⟩, ⟨2, 1, .ofLabel "ast"⟩,
    ⟨1, 1, .ofLabel "next"⟩]
  nodup_ids := by decide
  arcs_inside := by decide

/-- The arguments of the call are listed together, and nothing else is. -/
theorem summary_coarsest_arguments :
    (arguments.summary {}).nodes.map Node.group? = [some ["z"], some ["x", "y"], some ["f"]] ∧
    (arguments.summary {}).nodes.map Node.id = ["Supernode-0", "Supernode-1", "Supernode-2"] ∧
    ∃ r, IsGreatest {r | arguments.Stable {} r} r ∧ ∀ i j, r i j ↔ i = j ∨
      (arguments.node i).id ∈ ["x", "y"] ∧ (arguments.node j).id ∈ ["x", "y"] := by
  have listed : (arguments.summary {}).nodes.map Node.group? =
      [["z"], ["x", "y"], ["f"]].map some := by decide +kernel
  obtain ⟨groups, found, ids, -, -, r, greatest, together⟩ := summary_coarsest arguments {}
  obtain rfl : groups = [["z"], ["x", "y"], ["f"]] :=
    (Option.some_injective _).list_map (found.symm.trans listed)
  refine ⟨listed, ids, r, greatest, fun i j => (together i j).trans ?_⟩
  revert i j
  decide

end Graph

end GraphCompare
