import Mathlib
import GraphCompare.Proofs.Summary.Bisimulation
import GraphCompare.Proofs.Summary.Canonical

/-!
# What a supernode carries

A supernode is made from the first node of its group: it gets the texts that this node has under the
chosen names, and then the list of the ids of all members, under the name `group`. The members of a
group have one key, so the texts are those of every member (`Graph.carries_supernode`).

Both kinds of attributes are in one bag. So if `group` is itself a name that the summary is to go
by, its text is lost: the list of the members takes its place (`Graph.summary_filedUnder`). It is
the only name that does not keep its text (`Graph.summary_carries`). The types of superedges have
maps of their own, so there no name is lost.
-/

namespace GraphCompare.Graph

/-- What a supernode has of the nodes that it stands for: the list of their ids, the text that they
share under each chosen name but `group`, and nothing else. -/
structure Carries (s : SummarySettings) (n : Node) (members : List Node) : Prop where
  nonempty : members ≠ []
  group : n.attributes.get? "group" = some (.list (members.map fun m => .string m.id))
  text : ∀ m ∈ members, ∀ name ∈ s.nodeAttributes, name ≠ "group" →
    n.attributes.get? name = (m.attributes.text? name).map .string
  lost : ∀ m ∈ members, n.attributes.get? "group" ≠ (m.attributes.text? "group").map .string
  other : ∀ name, name ∉ s.nodeAttributes → name ≠ "group" → n.attributes.get? name = none

variable (g : Graph) (s : SummarySettings)

/-- The nodes of a group, in their order. -/
def groupNodes (group : ℕ) : List Node :=
  ((g.partition s).members group).filterMap (g.nodes[·]?)

variable {g s}

theorem mem_groupNodes {group : ℕ} {m : Node} : m ∈ g.groupNodes s group ↔
    ∃ i : Fin g.nodes.length, (g.partition s).groupOf i = group ∧ g.node i = m := by
  rw [groupNodes, List.mem_filterMap]
  constructor
  · rintro ⟨i, hi, hm⟩
    obtain ⟨hlt, rfl⟩ := List.getElem?_eq_some_iff.1 hm
    exact ⟨⟨i, hlt⟩, (Partition.mem_members.1 hi).2, rfl⟩
  · rintro ⟨i, hi, rfl⟩
    have inside := i.2.trans_eq (length_partition g s).symm
    exact ⟨i, Partition.mem_members.2 ⟨inside, hi⟩, List.getElem?_eq_getElem i.2⟩

/-- Every node of the graph is in one group. -/
theorem flatten_groupNodes_perm :
    ((List.range (g.partition s).groupCount).map (g.groupNodes s)).flatten.Perm g.nodes := by
  have ids : ((List.range (g.partition s).groupCount).map (g.groupNodes s)).flatten.map Node.id =
      (g.groups s).flatten := by
    rw [List.map_flatten, List.map_map]
    rfl
  have nodup : ((List.range (g.partition s).groupCount).map
      (g.groupNodes s)).flatten.Nodup :=
    List.Nodup.of_map Node.id (ids ▸ flatten_groups_perm.nodup_iff.2 g.nodup_ids)
  refine (List.perm_ext_iff_of_nodup nodup (List.Nodup.of_map Node.id g.nodup_ids)).2 fun m => ?_
  rw [← List.flatMap_def, List.mem_flatMap]
  constructor
  · rintro ⟨group, -, hm⟩
    obtain ⟨i, -, rfl⟩ := mem_groupNodes.1 hm
    exact g.nodes.get_mem i
  · intro hm
    obtain ⟨i, rfl⟩ := List.get_of_mem hm
    exact ⟨_, List.mem_range.2 (groupOf_lt_groupCount i), mem_groupNodes.2 ⟨i, rfl, rfl⟩⟩

/-- A supernode has what the nodes of its group share under the chosen names. -/
theorem get?_supernode {group : ℕ} {i : Fin g.nodes.length}
    (hi : (g.partition s).groupOf i = group) {name : String} (hname : name ≠ "group") :
    (supernode s (g.groupNodes s group)).get? name =
      if name ∈ s.nodeAttributes then ((g.node i).attributes.text? name).map .string else none := by
  rw [← Attributes.shown?_eq_text?]
  exact (get?_supernode_of_mem hi hname).trans (Attributes.get?_chosen _ _ _)

/-- The supernode of a group carries what its nodes share. -/
theorem carries_supernode {group : ℕ} (h : group < (g.partition s).groupCount) (id : NodeId) :
    Carries s ⟨id, supernode s (g.groupNodes s group)⟩ (g.groupNodes s group) := by
  have mem := ((g.approximates_partition s).1.dense group).2 h
  obtain ⟨i, hi⟩ := (Partition.mem_iff_groupOf (length_partition g s)).1 mem
  have listed : (supernode s (g.groupNodes s group)).get? "group" =
      some (.list ((g.groupNodes s group).map fun m => .string m.id)) := by
    rw [supernode.eq_def, Attributes.get?_insert, if_pos (beq_self_eq_true _)]
    simp [OrderedValue.list, OrderedValue.string]
  constructor
  case nonempty => exact List.ne_nil_of_mem (mem_groupNodes.2 ⟨i, hi, rfl⟩)
  case group => exact listed
  case text =>
    intro m hm name chosen hname
    obtain ⟨j, hj, rfl⟩ := mem_groupNodes.1 hm
    exact (get?_supernode hj hname).trans (if_pos chosen)
  case lost =>
    -- a list is not a text
    intro m _ same
    cases text : m.attributes.text? "group" <;> cases listed.symm.trans (text ▸ same)
  case other =>
    intro name unchosen hname
    exact (get?_supernode hi hname).trans (if_neg unchosen)

/-- **A supernode carries what its members share.** The nodes of a graph fall into groups, and the
nodes of its summary stand for the groups one by one. Each lists the ids of its members under
`group`; under every other name that is chosen it has the text of that attribute, which is the same
for all members, or lacks it if they lack it; and it has no other attribute. The text of an
attribute that is called `group` it never has. -/
theorem summary_carries (g : Graph) (s : SummarySettings) : ∃ groups : List (List Node),
    groups.flatten.Perm g.nodes ∧ List.Forall₂ (Carries s) (g.summary s).nodes groups := by
  refine ⟨(List.range (g.partition s).groupCount).map (g.groupNodes s),
    flatten_groupNodes_perm, ?_⟩
  rw [nodes_summary, List.forall₂_map_left_iff, List.forall₂_map_right_iff, List.forall₂_same]
  exact fun group hgroup => carries_supernode (List.mem_range.1 hgroup) _

/-- A node with an attribute that is called `group`. -/
def filedUnder : Graph where
  nodes := [⟨"a", Attributes.empty.insert "group" (.string "x")⟩]
  arcs := []
  nodup_ids := by decide
  arcs_inside := by simp

/-- A chosen attribute is lost if it is called `group`: the only member of the supernode has a text
under it, and the supernode has not. -/
theorem summary_filedUnder : let s : SummarySettings := ⟨["group"], []⟩
    ∃ n ∈ (filedUnder.summary s).nodes, ∃ m ∈ filedUnder.nodes, n.group? = some [m.id] ∧
      "group" ∈ s.nodeAttributes ∧ m.attributes.text? "group" = some "x" ∧
      n.attributes.get? "group" ≠ some (.string "x") := by
  refine ⟨⟨"Supernode-0", supernode ⟨["group"], []⟩ filedUnder.nodes⟩, ?_,
    ⟨"a", Attributes.empty.insert "group" (.string "x")⟩, List.mem_singleton_self _, ?_, ?_, ?_, ?_⟩
  · rw [nodes_summary]
    exact List.mem_singleton_self _
  · exact group?_supernode _ _ _
  · exact List.mem_singleton_self _
  · decide +kernel
  · intro same
    cases same

end GraphCompare.Graph
