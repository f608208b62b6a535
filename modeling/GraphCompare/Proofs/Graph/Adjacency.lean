import Mathlib
import GraphCompare.Graph.Adjacency
import GraphCompare.Proofs.Graph.Addition

/-!
# What an adjacency shows

An adjacency is filled edge by edge, starting from the nodes without edges. After any number of
edges the attributes between two nodes are those of the edges between them, in their order
(`Adjacency.get?_foldl_addEdge`), and each edge adds one bag and no more
(`Adjacency.bagCount_foldl_addEdge`). So the adjacency of a graph shows all of its nodes and all of
its edges (`Graph.shows_adjacency`).
-/

namespace GraphCompare

/-- Setting an entry changes the weight of all entries by as much as the weight of the entry. -/
theorem sum_alterInOrder {κ ν : Type} [Ord κ] (w : ν → ℕ) {f : Option ν → ν} {n : ℕ}
    (hf : ∀ v, w (f v) = v.elim 0 w + n) (k : κ) (l : List (κ × ν)) :
    ((alterInOrder k f l).map fun e => w e.2).sum = (l.map fun e => w e.2).sum + n := by
  have new : w (f none) = n := (hf none).trans (Nat.zero_add _)
  induction l with
  | nil => simp [alterInOrder, new]
  | cons e rest ih =>
    rw [alterInOrder]
    split
    · simp only [List.map_cons, List.sum_cons, new]
      omega
    · have changed : w (f (some e.2)) = w e.2 + n := hf (some e.2)
      simp only [List.map_cons, List.sum_cons, changed]
      omega
    · simp only [List.map_cons, List.sum_cons, ih]
      omega

/-- The keys of a map are those that are looked up. -/
theorem SortedMap.mem_keys_iff {κ ν : Type} [Ord κ] [Std.TransOrd κ] [Std.LawfulEqOrd κ] [BEq κ]
    [LawfulBEq κ] {m : SortedMap κ ν} {k : κ} : k ∈ m.keys ↔ (m.get? k).isSome := by
  rw [keys, List.mem_map, Option.isSome_iff_exists]
  constructor
  · rintro ⟨⟨_, v⟩, hv, rfl⟩
    exact ⟨v, m.increasing.mem_iff_lookup.1 hv⟩
  · rintro ⟨v, hv⟩
    exact ⟨(k, v), m.increasing.mem_iff_lookup.2 hv, rfl⟩

/-- The attributes of the edges from one node to another, in the order of the edges. -/
def bagsBetween (edges : List Edge) (s t : NodeId) : List Attributes :=
  (edges.filter fun e => e.source = s ∧ e.target = t).map Edge.attributes

theorem bagsBetween_concat (edges : List Edge) (e : Edge) (s t : NodeId) :
    bagsBetween (edges ++ [e]) s t = bagsBetween edges s t ++ bagsBetween [e] s t := by
  rw [bagsBetween, List.filter_append, List.map_append]
  rfl

theorem bagsBetween_self (e : Edge) : bagsBetween [e] e.source e.target = [e.attributes] := by
  simp [bagsBetween]

theorem bagsBetween_of_ne {e : Edge} {s t : NodeId} (h : ¬(e.source = s ∧ e.target = t)) :
    bagsBetween [e] s t = [] := by
  simpa [bagsBetween] using h

theorem bagsBetween_ne_nil_iff {edges : List Edge} {s t : NodeId} :
    bagsBetween edges s t ≠ [] ↔ ∃ e ∈ edges, e.source = s ∧ e.target = t := by
  simp [bagsBetween]

namespace Adjacency

/-- The number of bags under the targets of a node. -/
def bagsUnder (targets : SortedMap NodeId (List Attributes)) : ℕ :=
  (targets.entries.map fun e => e.2.length).sum

/-- The number of bags in an adjacency. -/
def bagCount (m : Adjacency) : ℕ := (m.entries.map fun e => bagsUnder e.2).sum

variable {m : Adjacency}

theorem get?_addEdge (m : Adjacency) (e : Edge) (s : NodeId) :
    SortedMap.get? (m.addEdge e) s =
      if s = e.source then
        some (((SortedMap.get? m e.source).getD .empty).alter e.target fun bags =>
          bags.getD [] ++ [e.attributes])
      else SortedMap.get? m s := by
  rw [addEdge, SortedMap.get?_alter]
  simp only [beq_iff_eq]

/-- An edge adds one bag. -/
theorem bagCount_addEdge (m : Adjacency) (e : Edge) : (m.addEdge e).bagCount = m.bagCount + 1 := by
  refine sum_alterInOrder bagsUnder (fun targets => ?_) e.source m.entries
  have inner : bagsUnder ((targets.getD .empty).alter e.target fun bags =>
      bags.getD [] ++ [e.attributes]) = bagsUnder (targets.getD .empty) + 1 :=
    sum_alterInOrder List.length (fun bags => by cases bags <;> simp) e.target _
  rw [inner]
  cases targets <;> rfl

theorem bagCount_foldl_addEdge (edges : List Edge) :
    (edges.foldl addEdge m).bagCount = m.bagCount + edges.length := by
  induction edges generalizing m with
  | nil => rfl
  | cons e rest ih =>
    rw [List.foldl_cons, ih, bagCount_addEdge, List.length_cons]
    omega

/-- A node is shown if it was shown before or an edge leaves it. -/
theorem isSome_get?_foldl_addEdge (edges : List Edge) (s : NodeId) :
    (SortedMap.get? (edges.foldl addEdge m) s).isSome ↔
      (SortedMap.get? m s).isSome ∨ ∃ e ∈ edges, e.source = s := by
  induction edges generalizing m with
  | nil => simp
  | cons e rest ih =>
    rw [List.foldl_cons, ih, get?_addEdge, List.exists_mem_cons_iff, ← or_assoc]
    refine or_congr_left ?_
    split
    case isTrue same => simp [same]
    case isFalse other => simp [Ne.symm other]

/-- Between two nodes there are the attributes of the edges between them, in their order. -/
theorem get?_foldl_addEdge (fresh : ∀ s targets, SortedMap.get? m s = some targets →
      targets = .empty) (edges : List Edge) (s t : NodeId) :
    ((SortedMap.get? (edges.foldl addEdge m) s).getD .empty).get? t =
      if bagsBetween edges s t = [] then none else some (bagsBetween edges s t) := by
  induction edges using List.reverseRecOn with
  | nil =>
    have none : (SortedMap.get? m s).getD .empty = .empty := by
      cases hs : SortedMap.get? m s with
      | none => rfl
      | some targets => exact fresh s targets hs
    rw [List.foldl_nil, none]
    rfl
  | append_singleton edges e ih =>
    rw [List.foldl_append, List.foldl_cons, List.foldl_nil, get?_addEdge, bagsBetween_concat]
    by_cases hs : s = e.source
    · subst hs
      rw [if_pos rfl, Option.getD_some, SortedMap.get?_alter]
      by_cases ht : t = e.target
      · subst ht
        rw [if_pos (beq_self_eq_true _), ih, bagsBetween_self]
        split
        case isTrue none => simp [none]
        case isFalse => simp
      · rw [if_neg (by simpa using ht), ih, bagsBetween_of_ne fun h => ht h.2.symm,
          List.append_nil]
    · rw [if_neg hs, ih, bagsBetween_of_ne fun h => hs h.1.symm, List.append_nil]

/-- What an adjacency has to do with a graph. -/
structure Shows (m : Adjacency) (g : Graph) : Prop where
  /-- Every node is there once, with or without edges. -/
  nodes : (SortedMap.keys m).Perm (g.nodes.map Node.id)
  targets : ∀ s targets, SortedMap.get? m s = some targets → ∀ t, t ∈ targets.keys ↔
    ∃ e ∈ g.edges, e.source = s ∧ e.target = t
  bags : ∀ s targets, SortedMap.get? m s = some targets → ∀ t bags, targets.get? t = some bags →
    bags = bagsBetween g.edges s t
  bagCount : m.bagCount = g.edgeCount

end Adjacency

namespace Graph

variable {g : Graph}

/-- The adjacency before any edge: every node, without targets. -/
def unconnected (g : Graph) : Adjacency := SortedMap.ofList (g.nodes.map fun n => (n.id, .empty))

theorem perm_entries_unconnected (g : Graph) :
    g.unconnected.entries.Perm (g.nodes.map fun n => (n.id, .empty)) := by
  refine SortedMap.perm_entries_ofList ?_
  rw [List.map_map]
  exact g.nodup_ids

theorem get?_unconnected {s : NodeId} {targets : SortedMap NodeId (List Attributes)} :
    SortedMap.get? g.unconnected s = some targets ↔
      s ∈ g.nodes.map Node.id ∧ targets = .empty := by
  rw [SortedMap.get?, ← g.unconnected.increasing.mem_iff_lookup,
    g.perm_entries_unconnected.mem_iff, List.mem_map, List.mem_map]
  constructor
  · rintro ⟨n, hn, he⟩
    cases he
    exact ⟨⟨n, hn, rfl⟩, rfl⟩
  · rintro ⟨⟨n, hn, rfl⟩, rfl⟩
    exact ⟨n, hn, rfl⟩

theorem bagCount_unconnected (g : Graph) : g.unconnected.bagCount = 0 := by
  rw [Adjacency.bagCount, (g.perm_entries_unconnected.map _).sum_eq, List.map_map]
  exact List.sum_eq_zero fun _ hn => by
    obtain ⟨_, _, rfl⟩ := List.mem_map.1 hn
    rfl

theorem adjacency_eq (g : Graph) : g.adjacency = g.edges.foldl Adjacency.addEdge g.unconnected :=
  rfl

theorem source_mem_ids {e : Edge} (he : e ∈ g.edges) : e.source ∈ g.nodes.map Node.id := by
  obtain ⟨k, rfl⟩ := mem_edges.1 he
  exact List.mem_map_of_mem (List.get_mem ..)

/-- An adjacency has every node. -/
theorem isSome_get?_adjacency {s : NodeId} :
    (SortedMap.get? g.adjacency s).isSome ↔ s ∈ g.nodes.map Node.id := by
  rw [adjacency_eq, Adjacency.isSome_get?_foldl_addEdge, Option.isSome_iff_exists]
  simp only [get?_unconnected, exists_and_left, exists_eq, and_true]
  constructor
  · rintro (hs | ⟨e, he, rfl⟩)
    · exact hs
    · exact source_mem_ids he
  · exact Or.inl

/-- Under two nodes an adjacency has the attributes of the edges between them. -/
theorem get?_of_adjacency {s : NodeId} {targets : SortedMap NodeId (List Attributes)}
    (hs : SortedMap.get? g.adjacency s = some targets) (t : NodeId) : targets.get? t =
      if bagsBetween g.edges s t = [] then none else some (bagsBetween g.edges s t) := by
  have between := Adjacency.get?_foldl_addEdge
    (fun _ _ h => (get?_unconnected (g := g).1 h).2) g.edges s t
  rw [← adjacency_eq, hs] at between
  exact between

/-- The adjacency of a graph shows the graph. -/
theorem shows_adjacency (g : Graph) : g.adjacency.Shows g where
  nodes := by
    refine (List.perm_ext_iff_of_nodup g.adjacency.increasing.nodup g.nodup_ids).2 fun s => ?_
    exact SortedMap.mem_keys_iff.trans isSome_get?_adjacency
  targets s targets hs t := by
    rw [SortedMap.mem_keys_iff, get?_of_adjacency hs, ← bagsBetween_ne_nil_iff]
    split
    case isTrue none => simp [none]
    case isFalse some => simp [some]
  bags s targets hs t bags ht := by
    rw [get?_of_adjacency hs] at ht
    split at ht
    case isTrue => cases ht
    case isFalse => exact (Option.some_inj.1 ht).symm
  bagCount := by
    rw [adjacency_eq, Adjacency.bagCount_foldl_addEdge, bagCount_unconnected, Nat.zero_add,
      edges, List.length_map, List.length_zipIdx, edgeCount]

end Graph

end GraphCompare
