import Mathlib
import GraphCompare.Proofs.Graph.Coherence
import GraphCompare.Proofs.Summary.Superedges

/-!
# A summary has the walks of the graph

A walk follows edges from node to node and tells the type of each edge and the group of the node
that it leads to. In a graph the types are those of its edges; in a summary they are listed with the
superedges, and every step chooses one of them.

A superedge is drawn as soon as one member of a group has an edge, while a walk starts from any
member. That every member has an edge of the same type to the same group is what makes the last
partition stable (`Graph.exists_edge_of_stable`), and it makes membership in a group a bisimulation
between the graph and its summary (`Graph.bisimulation_member`). States that are related by a
bisimulation have the same walks (`Bisimulation.walks_iff`), however long they are.

Superedges list types as maps of texts. Two edges of different types have different maps, also where
a name is configured twice (`Attributes.chosen_inj`), so no map is listed twice.
-/

namespace GraphCompare

/-! ## Walks -/

section
variable {σ τ L : Type}

/-- The sequences of labels that can be walked from a state, step by step. -/
inductive Walks (step : σ → L → σ → Prop) : σ → List L → Prop
  | nil (a : σ) : Walks step a []
  | cons {a b : σ} {l : L} {rest : List L} (first : step a l b) (later : Walks step b rest) :
    Walks step a (l :: rest)

/-- A relation between the states of two systems in which each answers every step of the other. -/
structure Bisimulation (step : σ → L → σ → Prop) (step' : τ → L → τ → Prop) (r : σ → τ → Prop) :
    Prop where
  forth : ∀ a a' l b, r a a' → step a l b → ∃ b', step' a' l b' ∧ r b b'
  back : ∀ a a' l b', r a a' → step' a' l b' → ∃ b, step a l b ∧ r b b'

/-- States that a bisimulation relates have the same walks. -/
theorem Bisimulation.walks_iff {step : σ → L → σ → Prop} {step' : τ → L → τ → Prop}
    {r : σ → τ → Prop} (h : Bisimulation step step' r) {a : σ} {a' : τ} (related : r a a')
    (labels : List L) : Walks step a labels ↔ Walks step' a' labels := by
  induction labels generalizing a a' with
  | nil => exact ⟨fun _ => .nil a', fun _ => .nil a⟩
  | cons l rest ih =>
    constructor
    · rintro (_ | ⟨first, later⟩)
      obtain ⟨b', answer, hb⟩ := h.forth _ _ _ _ related first
      exact .cons answer ((ih hb).1 later)
    · rintro (_ | ⟨first, later⟩)
      obtain ⟨b, answer, hb⟩ := h.back _ _ _ _ related first
      exact .cons answer ((ih hb).2 later)

end

/-! ## The maps of types -/

namespace Attributes

/-- The texts of the attributes that are chosen by name, where they are present and not null. -/
def chosen (a : Attributes) (names : List String) : Attributes :=
  Key.attributes names (names.map a.shown?)

/-- The chosen attributes are set one after the other, in the order of their names. -/
theorem chosen_eq (a : Attributes) (names : List String) : a.chosen names =
    ofList (names.filterMap fun name => (a.shown? name).map fun s => (name, .string s)) := by
  rw [chosen, Key.attributes, ← List.map_prod_left_eq_zip, List.filterMap_map]
  rfl

/-- A chosen attribute has its text, if it has one, and no other attribute is there. -/
theorem get?_chosen (a : Attributes) (names : List String) (name : String) :
    (a.chosen names).get? name =
      if name ∈ names then (a.shown? name).map Value.string else none := by
  rw [chosen_eq, ofList]
  -- a name that is chosen twice is set twice, to the same text
  induction names using List.reverseRecOn with
  | nil => rfl
  | append_singleton names last ih =>
    rw [List.filterMap_append, List.foldl_append]
    cases text : a.shown? last with
    | none =>
      have unset : [last].filterMap
          (fun name => (a.shown? name).map fun s => (name, OrderedValue.string s)) = [] := by
        simp [text]
      rw [unset, List.foldl_nil, ih]
      by_cases h : name = last <;> simp [h, text]
    | some s =>
      have set : [last].filterMap
          (fun name => (a.shown? name).map fun s => (name, OrderedValue.string s)) =
          [(last, OrderedValue.string s)] := by
        simp [text]
      rw [set, List.foldl_cons, List.foldl_nil, get?_insert, ih]
      by_cases h : name = last <;> simp [h, text, OrderedValue.string]

/-- Bags with the same map have the same texts under the names that are chosen. -/
theorem chosen_inj {a b : Attributes} {names : List String}
    (h : a.chosen names = b.chosen names) : names.map a.shown? = names.map b.shown? := by
  refine List.map_congr_left fun name hname => ?_
  have texts := congrArg (fun c => c.get? name) h
  simp only [get?_chosen, if_pos hname] at texts
  exact Option.map_injective (fun _ _ => Value.string.inj) texts

end Attributes

/-- The map that an edge type is listed as. -/
def SummarySettings.typeMap (s : SummarySettings) (type : Key) : Value :=
  (Key.attributes s.edgeAttributes type).toValue.1

/-- The type of an edge, as a map of the texts of the chosen attributes. -/
def Edge.type (s : SummarySettings) (e : Edge) : Value :=
  s.typeMap (s.edgeAttributes.map e.attributes.shown?)

/-- The types that a superedge lists, if it lists any. -/
def Edge.types? (e : Edge) : Option (List Value) :=
  match e.attributes.get? "types" with
  | some (.list types) => some types
  | _ => none

/-- Edges whose types have one map are of one type. -/
theorem SummarySettings.typeMap_inj {s : SummarySettings} {a b : Attributes}
    (h : s.typeMap (s.edgeAttributes.map a.shown?) = s.typeMap (s.edgeAttributes.map b.shown?)) :
    s.edgeAttributes.map a.shown? = s.edgeAttributes.map b.shown? :=
  Attributes.chosen_inj (Attributes.ext (Value.map.inj h))

namespace Graph

/-! ## Steps in a graph and in its summary -/

section
variable (g : Graph) (s : SummarySettings)

/-- A node is a member of the group that a supernode of the summary lists. -/
def Member (id group : NodeId) : Prop :=
  ∃ n ∈ (g.summary s).nodes, n.id = group ∧ ∃ ids, n.group? = some ids ∧ id ∈ ids

/-- A step along an edge of the graph, which tells the type of the edge and the group of its
target. -/
def typedStep (id : NodeId) (label : Value × NodeId) (id' : NodeId) : Prop :=
  ∃ e ∈ g.edges, e.source = id ∧ e.target = id' ∧ e.type s = label.1 ∧ g.Member s id' label.2

/-- A step along a superedge, which tells one of the types that it lists and the group of its
target. -/
def superstep (group : NodeId) (label : Value × NodeId) (group' : NodeId) : Prop :=
  ∃ e ∈ g.edges, e.source = group ∧ e.target = group' ∧
    (∃ types, e.types? = some types ∧ label.1 ∈ types) ∧ label.2 = group'

end

variable {g : Graph} {s : SummarySettings}

/-- A node is a member of its own group and of no other. -/
theorem member_iff {i : Fin g.nodes.length} {group : NodeId} :
    g.Member s (g.node i).id group ↔ supernodeId ((g.partition s).groupOf i) = group := by
  rw [Member, nodes_summary]
  constructor
  · rintro ⟨n, hn, rfl, ids, hids, hmem⟩
    obtain ⟨x, -, rfl⟩ := List.mem_map.1 hn
    rw [group?_supernode, Option.some.injEq] at hids
    subst hids
    rw [id_mem_groupIds.1 hmem]
  · rintro rfl
    refine ⟨_, List.mem_map_of_mem (List.mem_range.2 (groupOf_lt_groupCount i)), rfl,
      _, group?_supernode .., ?_⟩
    exact id_mem_groupIds.2 rfl

/-- Members are nodes. -/
theorem Member.exists_node {id group : NodeId} (h : g.Member s id group) :
    ∃ i, (g.node i).id = id := by
  obtain ⟨n, hn, -, ids, hids, hmem⟩ := h
  rw [nodes_summary] at hn
  obtain ⟨x, -, rfl⟩ := List.mem_map.1 hn
  rw [group?_supernode, Option.some.injEq] at hids
  subst hids
  obtain ⟨i, -, hi⟩ := mem_groupIds.1 hmem
  exact ⟨i, hi⟩

theorem links_summary (g : Graph) (s : SummarySettings) :
    (g.summary s).links = g.superlinks s := by
  rw [links, edges_summary, map_numbered (k := id) fun _ _ => rfl, List.map_id]

/-- The edges of a summary are the entries that were gathered under two groups. -/
theorem exists_entry {e : Edge} (he : e ∈ (g.summary s).edges) :
    ∃ x types, (g.superedges s).get? x = some types ∧ supernodeId x.1 = e.source ∧
      supernodeId x.2 = e.target ∧ superedge s types = e.attributes := by
  have link : (e.source, e.target, e.attributes) ∈ (g.summary s).links := List.mem_map_of_mem he
  rw [links_summary] at link
  obtain ⟨⟨x, types⟩, entry, h⟩ := List.mem_map.1 link
  simp only [Prod.mk.injEq] at h
  exact ⟨x, types, (g.superedges s).increasing.mem_iff_lookup.1 entry, h⟩

/-- Groups that an edge leads between have an entry. -/
theorem exists_superedge (k : Fin g.arcs.length) : ∃ e ∈ (g.summary s).edges,
    supernodeId ((g.partition s).groupOf (g.source k)) = e.source ∧
      supernodeId ((g.partition s).groupOf (g.target k)) = e.target := by
  obtain ⟨x, hx⟩ : ∃ x, ((g.partition s).groupOf (g.source k),
    (g.partition s).groupOf (g.target k)) = x := ⟨_, rfl⟩
  have gathered : ∃ types, (g.superedges s).get? x = some types := by
    refine ⟨.ofList (((g.typedArcs s).filter (g.groupsOf s · == x)).map TypedArc.type),
      get?_superedges.2 ⟨⟨g.edgeType s k, k, hx, rfl⟩, fun t => ?_⟩⟩
    rw [SortedSet.mem_ofList, mem_typesBetween, List.mem_map]
    simp only [List.mem_filter, beq_iff_eq, and_assoc]
  obtain ⟨types, found⟩ := gathered
  have entry : (x, types) ∈ (g.superedges s).entries :=
    (g.superedges s).increasing.mem_iff_lookup.2 found
  have link : (supernodeId x.1, supernodeId x.2, superedge s types) ∈ (g.summary s).links := by
    rw [links_summary]
    exact List.mem_map.2 ⟨(x, types), entry, rfl⟩
  obtain ⟨e, he, h⟩ := List.mem_map.1 link
  simp only [Prod.mk.injEq] at h
  subst hx
  exact ⟨e, he, h.1.symm, h.2.1.symm⟩

/-- The edges from members of one group to members of another, by number. -/
theorem exists_edge_between {group group' : NodeId} {p : Value → Prop} :
    (∃ f ∈ g.edges, g.Member s f.source group ∧ g.Member s f.target group' ∧ p (f.type s)) ↔
      ∃ k, supernodeId ((g.partition s).groupOf (g.source k)) = group ∧
        supernodeId ((g.partition s).groupOf (g.target k)) = group' ∧
          p (s.typeMap (g.edgeType s k)) := by
  constructor
  · rintro ⟨f, hf, source, target, hp⟩
    obtain ⟨k, rfl⟩ := mem_edges.1 hf
    exact ⟨k, member_iff.1 source, member_iff.1 target, hp⟩
  · rintro ⟨k, source, target, hp⟩
    exact ⟨_, mem_edges.2 ⟨k, rfl⟩, member_iff.2 source, member_iff.2 target, hp⟩

/-- A superedge leads from one group to another exactly if an edge leads from a member of the one
to a member of the other. -/
theorem exists_superedge_iff {group group' : NodeId} :
    (∃ e ∈ (g.summary s).edges, e.source = group ∧ e.target = group') ↔
      ∃ f ∈ g.edges, g.Member s f.source group ∧ g.Member s f.target group' := by
  have between := @exists_edge_between g s group group' fun _ => True
  simp only [and_true] at between
  rw [between]
  constructor
  · rintro ⟨e, he, rfl, rfl⟩
    obtain ⟨x, types, found, source, target, -⟩ := exists_entry he
    obtain ⟨⟨t, k, rfl, -⟩, -⟩ := get?_superedges.1 found
    exact ⟨k, source, target⟩
  · rintro ⟨k, rfl, rfl⟩
    obtain ⟨e, he, source, target⟩ := exists_superedge (s := s) k
    exact ⟨e, he, source.symm, target.symm⟩

/-- The types that were gathered are listed as their maps. -/
theorem types?_of_superedge {e : Edge} {types : SortedSet Key}
    (h : superedge s types = e.attributes) : e.types? = some (types.toList.map s.typeMap) := by
  have listed : (superedge s types).get? "types" =
      some (.list (types.toList.map s.typeMap)) := by
    rw [superedge, Attributes.get?_insert, if_pos (beq_self_eq_true _)]
    simp only [OrderedValue.list, List.map_map]
    rfl
  rw [Edge.types?, ← h, listed]

/-- A superedge lists the types of the edges between its groups, each once. -/
theorem types?_of_mem_edges {e : Edge} (he : e ∈ (g.summary s).edges) :
    ∃ types, e.types? = some types ∧ types.Nodup ∧ ∀ t, t ∈ types ↔
      ∃ f ∈ g.edges, g.Member s f.source e.source ∧ g.Member s f.target e.target ∧
        f.type s = t := by
  obtain ⟨x, types, found, source, target, attributes⟩ := exists_entry he
  obtain ⟨-, mem⟩ := get?_superedges.1 found
  refine ⟨_, types?_of_superedge attributes, ?_, fun t => ?_⟩
  · refine types.increasing.nodup.map_on fun a ha b hb h => ?_
    obtain ⟨k, -, rfl⟩ := (mem a).1 ha
    obtain ⟨k', -, rfl⟩ := (mem b).1 hb
    exact SummarySettings.typeMap_inj h
  · rw [exists_edge_between (p := (· = t)), List.mem_map]
    constructor
    · rintro ⟨a, ha, rfl⟩
      obtain ⟨k, rfl, rfl⟩ := (mem a).1 ha
      exact ⟨k, source, target, rfl⟩
    · rintro ⟨k, hs, ht, rfl⟩
      have groups : ((g.partition s).groupOf (g.source k), (g.partition s).groupOf (g.target k)) =
          x :=
        Prod.ext (supernodeId_injective (hs.trans source.symm))
          (supernodeId_injective (ht.trans target.symm))
      exact ⟨_, (mem _).2 ⟨k, groups, rfl⟩, rfl⟩

/-- No two superedges join the same groups in the same direction. -/
theorem nodup_ends_summary (g : Graph) (s : SummarySettings) :
    ((g.summary s).edges.map fun e => (e.source, e.target)).Nodup := by
  have ends : ((g.summary s).edges.map fun e => (e.source, e.target)) =
      ((g.superedges s).entries.map Prod.fst).map (Prod.map supernodeId supernodeId) := by
    rw [edges_summary, map_numbered (k := fun e => (e.1, e.2.1)) fun _ _ => rfl, superlinks,
      List.map_map, List.map_map]
    rfl
  rw [ends]
  exact (g.superedges s).increasing.nodup.map
    (supernodeId_injective.prodMap supernodeId_injective)

/-- If one member of a group has an edge, every member has one of the same type to the same
group. -/
theorem exists_edge_of_stable {id group group' : NodeId} {f : Edge} (member : g.Member s id group)
    (hf : f ∈ g.edges) (source : g.Member s f.source group) (target : g.Member s f.target group') :
    ∃ f' ∈ g.edges, f'.source = id ∧ f'.type s = f.type s ∧ g.Member s f'.target group' := by
  obtain ⟨i, rfl⟩ := member.exists_node
  obtain ⟨k, rfl⟩ := mem_edges.1 hf
  have together : (g.partition s).kernel g (g.source k) i :=
    supernodeId_injective ((member_iff.1 source).trans (member_iff.1 member).symm)
  have same := (Graph.reached_ker_iff _).1 ((g.approximates_partition s).2.reached _ _ together)
  have reached : (g.edgeType s k, (g.partition s).groupOf (g.target k)) ∈
      g.reached s (fun j => (g.partition s).groupOf j) i := same ▸ ⟨k, rfl, rfl⟩
  obtain ⟨k', rfl, h⟩ := reached
  obtain ⟨type, number⟩ := Prod.mk.inj h
  refine ⟨_, mem_edges.2 ⟨k', rfl⟩, rfl, congrArg s.typeMap type, member_iff.2 ?_⟩
  exact (congrArg supernodeId number).trans (member_iff.1 target)

/-- **Membership is a bisimulation** between a graph and its summary. -/
theorem bisimulation_member (g : Graph) (s : SummarySettings) :
    Bisimulation (g.typedStep s) (g.summary s).superstep (g.Member s) := by
  constructor
  · rintro id group ⟨t, group'⟩ id' member ⟨f, hf, rfl, rfl, rfl, member'⟩
    obtain ⟨e, he, rfl, rfl⟩ := exists_superedge_iff.2 ⟨f, hf, member, member'⟩
    obtain ⟨types, htypes, -, listed⟩ := types?_of_mem_edges he
    have lists : f.type s ∈ types := (listed _).2 ⟨f, hf, member, member', rfl⟩
    exact ⟨e.target, ⟨e, he, rfl, rfl, ⟨types, htypes, lists⟩, rfl⟩, member'⟩
  · rintro id group ⟨t, group'⟩ _ member ⟨e, he, rfl, rfl, ⟨types, htypes, lists⟩, rfl⟩
    obtain ⟨types', htypes', -, listed⟩ := types?_of_mem_edges he
    rw [htypes, Option.some.injEq] at htypes'
    subst htypes'
    obtain ⟨f, hf, source, target, rfl⟩ := (listed _).1 lists
    obtain ⟨f', hf', rfl, type, target'⟩ := exists_edge_of_stable member hf source target
    exact ⟨f'.target, ⟨f', hf', rfl, rfl, type, target'⟩, target'⟩

/-- Supernodes and superedges are added one after the other, and none of them is refused. -/
theorem foldlM_summaryHistory (g : Graph) (s : SummarySettings) :
    (g.summaryHistory s).foldlM add empty = .ok (g.summary s) := by
  rw [summaryHistory, List.foldlM_append, foldlM_ensureNode]
  have added := (foldlM_superlinks g s).1
  rw [superlinks, List.map_map] at added
  exact added

/-- **A summary has exactly the superedges and the walks of the graph.** No superedge is refused.
From one group to another there is at most one; it is there exactly if an edge leads from a member
of the one to a member of the other, and it lists the types of those edges, each once. From a member
of a group the graph has the walks that the summary has from the supernode of the group, of any
length: the same types of edges one after the other, to the same groups. -/
theorem summary_bisimilar (g : Graph) (s : SummarySettings) :
    (g.summaryHistory s).foldlM add empty = .ok (g.summary s) ∧
    ((g.summary s).edges.map fun e => (e.source, e.target)).Nodup ∧
    (∀ group group', (∃ e ∈ (g.summary s).edges, e.source = group ∧ e.target = group') ↔
      ∃ f ∈ g.edges, g.Member s f.source group ∧ g.Member s f.target group') ∧
    (∀ e ∈ (g.summary s).edges, ∃ types, e.types? = some types ∧ types.Nodup ∧ ∀ t, t ∈ types ↔
      ∃ f ∈ g.edges, g.Member s f.source e.source ∧ g.Member s f.target e.target ∧
        f.type s = t) ∧
    ∀ id group, g.Member s id group → ∀ labels,
      Walks (g.typedStep s) id labels ↔ Walks (g.summary s).superstep group labels :=
  ⟨foldlM_summaryHistory g s, nodup_ends_summary g s, fun _ _ => exists_superedge_iff,
    fun _ => types?_of_mem_edges, fun _ _ => (bisimulation_member g s).walks_iff⟩

/-- Two functions that call each other. -/
def evenOdd : Graph where
  nodes := [⟨"even", .ofLabel "function"⟩, ⟨"odd", .ofLabel "function"⟩]
  arcs := [⟨0, 1, .ofLabel "call"⟩, ⟨1, 0, .ofLabel "call"⟩]
  nodup_ids := by decide
  arcs_inside := by simp

/-- The two are one group, which calls itself. -/
theorem member_evenOdd (i : Fin 2) : evenOdd.Member {} (evenOdd.node i).id "Supernode-0" := by
  refine member_iff.2 ?_
  fin_cases i <;> decide

/-- The calls there and back are two calls of the group to itself. -/
theorem walks_summary_evenOdd :
    evenOdd.Member {} "even" "Supernode-0" ∧
      Walks (evenOdd.summary {}).superstep "Supernode-0"
        [(.map [("label", .string "call")], "Supernode-0"),
          (.map [("label", .string "call")], "Supernode-0")] := by
  have there :
      evenOdd.typedStep {} "even" (.map [("label", .string "call")], "Supernode-0") "odd" :=
    ⟨_, mem_edges.2 ⟨(0 : Fin 2), rfl⟩, rfl, rfl, rfl, member_evenOdd 1⟩
  have back :
      evenOdd.typedStep {} "odd" (.map [("label", .string "call")], "Supernode-0") "even" :=
    ⟨_, mem_edges.2 ⟨(1 : Fin 2), rfl⟩, rfl, rfl, rfl, member_evenOdd 0⟩
  have same := (summary_bisimilar evenOdd {}).2.2.2.2 "even" "Supernode-0" (member_evenOdd 0)
  exact ⟨member_evenOdd 0, (same _).1 (.cons there (.cons back (.nil "even")))⟩

end Graph

end GraphCompare
