import Mathlib
import GraphCompare.Proofs.Graph.Incidence
import GraphCompare.Proofs.Summary.Numbering
import GraphCompare.Summary.Basic

/-!
# Stable partitions and the refinement

A partition of the nodes of a graph is taken as an equivalence of positions. It is stable if nodes
of one class show the same under every chosen name and reach the same (`Graph.Stable`): over
outgoing edges of the same types the same classes. What an attribute shows is said here without the
keys that the refinement goes by (`Attributes.shown?`); a key holds just that for each name
(`Attributes.key_eq_map_shown?`).

The partition of a summary starts from the keys and is split round by round. What holds at every
step is `Partition.Approximates`: the groups are numbered without gaps, their nodes have one key,
and every stable partition is finer. A round preserves this, since nodes that reach the same in a
finer partition do so in a coarser one (`Graph.reached_mono`). The rounds stop when one adds no
group, which means that it has split nothing (`Partition.groupCount_of_kernel_le`), so what they
stop at is stable (`Partition.Approximates.stable_split`). Groups and rounds left always outnumber
the nodes, so the rounds are never used up before that (`Partition.Approximates.refineWithin`).
-/

namespace GraphCompare

namespace Attributes

/-- What an attribute shows: the text of its value. An attribute that is missing shows nothing, and
neither does one that is null. -/
def shown? (a : Attributes) (name : String) : Option String :=
  match a.get? name with
  | none | some .null => none
  | some v => some v.text

theorem shown?_eq_text? (a : Attributes) : a.shown? = a.text? := by
  funext name
  rw [shown?, text?]
  rcases a.get? name with _ | v
  · rfl
  · cases v <;> rfl

/-- A key has what is shown under each of its names. -/
theorem key_eq_map_shown? (a : Attributes) (names : List String) :
    a.key names = names.map a.shown? := by
  rw [key, shown?_eq_text?]

end Attributes

namespace Graph

variable (g : Graph) (s : SummarySettings)

/-- What the chosen attributes of the node at a position show. -/
def nodeKey (i : Fin g.nodes.length) : Key :=
  s.nodeAttributes.map (g.node i).attributes.shown?

/-- The type of the edge with a number: what its chosen attributes show. -/
def edgeType (k : Fin g.arcs.length) : Key :=
  s.edgeAttributes.map (g.arc k).attributes.shown?

theorem key_node (i : Fin g.nodes.length) :
    (g.node i).attributes.key s.nodeAttributes = g.nodeKey s i :=
  Attributes.key_eq_map_shown? _ _

/-- The typed arcs are the edges with their types. -/
theorem mem_typedArcs {a : TypedArc} :
    a ∈ g.typedArcs s ↔ ∃ k, ⟨g.source k, g.target k, g.edgeType s k⟩ = a := by
  have typed (k : Fin g.arcs.length) :
      (g.arc k).attributes.key s.edgeAttributes = g.edgeType s k :=
    Attributes.key_eq_map_shown? _ _
  simp only [← typed]
  rw [typedArcs, List.mem_map]
  constructor
  · rintro ⟨b, hb, rfl⟩
    obtain ⟨k, hk, rfl⟩ := List.getElem_of_mem hb
    exact ⟨⟨k, hk⟩, rfl⟩
  · rintro ⟨k, rfl⟩
    exact ⟨_, g.arcs.get_mem k, rfl⟩

/-- What a node reaches: the types of its outgoing edges, each with the class it leads to. -/
def reached {α : Type} (part : Fin g.nodes.length → α) (i : Fin g.nodes.length) : Set (Key × α) :=
  {x | ∃ k, g.source k = i ∧ (g.edgeType s k, part (g.target k)) = x}

/-- Nodes of one class show the same under every chosen name and reach the same. -/
structure Stable (r : Setoid (Fin g.nodes.length)) : Prop where
  shown : ∀ i j, r i j → ∀ name ∈ s.nodeAttributes,
    (g.node i).attributes.shown? name = (g.node j).attributes.shown? name
  reached : ∀ i j, r i j → g.reached s (Quotient.mk r) i = g.reached s (Quotient.mk r) j

variable {g s}

/-- Nodes have one key exactly if they show the same under every chosen name. -/
theorem nodeKey_eq_iff {i j : Fin g.nodes.length} : g.nodeKey s i = g.nodeKey s j ↔
    ∀ name ∈ s.nodeAttributes,
      (g.node i).attributes.shown? name = (g.node j).attributes.shown? name :=
  List.map_inj_left

/-- Renaming the classes renames them in what a node reaches. -/
theorem reached_comp {α β : Type} (part : Fin g.nodes.length → α) (f : α → β)
    (i : Fin g.nodes.length) :
    g.reached s (f ∘ part) i = Prod.map id f '' g.reached s part i := by
  ext x
  constructor
  · rintro ⟨k, hk, rfl⟩
    exact ⟨_, ⟨k, hk, rfl⟩, rfl⟩
  · rintro ⟨_, ⟨k, hk, rfl⟩, rfl⟩
    exact ⟨k, hk, rfl⟩

/-- Nodes that reach the same classes reach the same classes of a coarser partition. -/
theorem reached_mono {r q : Setoid (Fin g.nodes.length)} (h : r ≤ q) {i j : Fin g.nodes.length}
    (hr : g.reached s (Quotient.mk r) i = g.reached s (Quotient.mk r) j) :
    g.reached s (Quotient.mk q) i = g.reached s (Quotient.mk q) j := by
  have hmk : Quotient.mk q = Setoid.map_of_le h ∘ Quotient.mk r := rfl
  rw [hmk, reached_comp, reached_comp, hr]

/-- Classes may be told apart by numbers. -/
theorem reached_ker_iff {α : Type} (part : Fin g.nodes.length → α) {i j : Fin g.nodes.length} :
    g.reached s (Quotient.mk (Setoid.ker part)) i = g.reached s (Quotient.mk (Setoid.ker part)) j ↔
      g.reached s part i = g.reached s part j := by
  have hpart : part = Setoid.kerLift part ∘ Quotient.mk (Setoid.ker part) := rfl
  have inj : Function.Injective (Prod.map id (Setoid.kerLift part) : Key × _ → Key × α) :=
    Function.injective_id.prodMap (Setoid.kerLift_injective part)
  conv_rhs => rw [hpart, reached_comp, reached_comp]
  exact inj.image_injective.eq_iff.symm

end Graph

namespace Partition

variable {g : Graph} {s : SummarySettings} {p : Partition}

/-- The nodes that are in one group. -/
def kernel (g : Graph) (p : Partition) : Setoid (Fin g.nodes.length) :=
  Setoid.ker fun i => p.groupOf i

theorem kernel_iff {i j : Fin g.nodes.length} : p.kernel g i j ↔ p.groupOf i = p.groupOf j :=
  Iff.rfl

/-- A signature holds what a node reaches. -/
theorem mem_signature {i : Fin g.nodes.length} {x : Key × ℕ} :
    x ∈ (p.signature (g.typedArcs s) i).toList ↔ x ∈ g.reached s (fun j => p.groupOf j) i := by
  rw [signature, ← SortedSet.mem_def, SortedSet.mem_ofList, List.mem_map]
  constructor
  · rintro ⟨a, ha, rfl⟩
    obtain ⟨ha, hsource⟩ := List.mem_filter.1 ha
    obtain ⟨k, rfl⟩ := (Graph.mem_typedArcs g s).1 ha
    exact ⟨k, Fin.ext (beq_iff_eq.1 hsource), rfl⟩
  · rintro ⟨k, hk, rfl⟩
    refine ⟨_, List.mem_filter.2 ⟨(Graph.mem_typedArcs g s).2 ⟨k, rfl⟩, ?_⟩, rfl⟩
    exact beq_iff_eq.2 (congrArg Fin.val hk)

/-- Nodes have one signature exactly if they reach the same groups. -/
theorem signature_eq_iff {i j : Fin g.nodes.length} :
    p.signature (g.typedArcs s) i = p.signature (g.typedArcs s) j ↔
      g.reached s (Quotient.mk (p.kernel g)) i = g.reached s (Quotient.mk (p.kernel g)) j := by
  rw [kernel, Graph.reached_ker_iff]
  constructor
  · intro h
    ext x
    rw [← mem_signature, ← mem_signature, h]
  · intro h
    refine SortedSet.ext_mem fun x => ?_
    rw [mem_signature, mem_signature, h]

@[simp] theorem length_split (arcs : List TypedArc) : (p.split arcs).length = p.length := by
  simp [split]

/-- A round keeps nodes together that were together and reached the same. -/
theorem kernel_split_iff (hp : p.length = g.nodes.length) {i j : Fin g.nodes.length} :
    (p.split (g.typedArcs s)).kernel g i j ↔
      p.kernel g i j ∧
        g.reached s (Quotient.mk (p.kernel g)) i = g.reached s (Quotient.mk (p.kernel g)) j := by
  have hi : (i : ℕ) < p.length := i.2.trans_eq hp.symm
  have hj : (j : ℕ) < p.length := j.2.trans_eq hp.symm
  rw [kernel_iff, kernel_iff, ← signature_eq_iff, groupOf_eq_getElem hi, groupOf_eq_getElem hj,
    split, groupOf_numbering_inj (by simpa using hi) (by simpa using hj)]
  simp [SortedSet.ext_iff]

/-- A round only splits groups. -/
theorem kernel_split_le (hp : p.length = g.nodes.length) :
    (p.split (g.typedArcs s)).kernel g ≤ p.kernel g :=
  fun _ _ h => ((kernel_split_iff hp).1 h).1

/-- The numbers in a partition are those of the groups of nodes. -/
theorem mem_iff_groupOf (hp : p.length = g.nodes.length) {x : ℕ} :
    x ∈ p ↔ ∃ i : Fin g.nodes.length, p.groupOf i = x := by
  constructor
  · intro hx
    obtain ⟨i, hi, rfl⟩ := List.getElem_of_mem hx
    exact ⟨⟨i, hi.trans_eq hp⟩, groupOf_eq_getElem hi⟩
  · rintro ⟨i, rfl⟩
    rw [groupOf_eq_getElem (i.2.trans_eq hp.symm)]
    exact List.getElem_mem _

/-- The groups are counted by the numbers that the nodes get. -/
theorem groupCount_eq_card_image (hp : p.length = g.nodes.length) :
    p.groupCount = (Finset.univ.image fun i : Fin g.nodes.length => p.groupOf i).card := by
  rw [groupCount_eq_card]
  congr 1
  ext x
  simp [mem_iff_groupOf hp]

/-- Splitting groups adds to their number, unless it splits nothing. -/
theorem groupCount_of_kernel_le {q : Partition} (hp : p.length = g.nodes.length)
    (hq : q.length = g.nodes.length) (h : q.kernel g ≤ p.kernel g) :
    p.groupCount ≤ q.groupCount ∧ (q.groupCount = p.groupCount → p.kernel g ≤ q.kernel g) := by
  -- the coarser numbers are a function of the finer ones, and an injective one if the counts agree
  have factors : Function.FactorsThrough (fun i : Fin g.nodes.length => p.groupOf i)
      fun i : Fin g.nodes.length => q.groupOf i := fun _ _ heq => h heq
  obtain ⟨e, he⟩ := (Function.factorsThrough_iff _).1 factors
  have himage : (Finset.univ.image fun i : Fin g.nodes.length => p.groupOf i) =
      (Finset.univ.image fun i : Fin g.nodes.length => q.groupOf i).image e := by
    rw [he, Finset.image_image]
  rw [groupCount_eq_card_image hp, groupCount_eq_card_image hq, himage]
  refine ⟨Finset.card_image_le, ?_⟩
  intro hcard i j hij
  have inj := Finset.injOn_of_card_image_eq hcard.symm
  refine inj (Finset.mem_coe.2 (Finset.mem_image_of_mem _ (Finset.mem_univ i)))
    (Finset.mem_coe.2 (Finset.mem_image_of_mem _ (Finset.mem_univ j))) ?_
  have hpi : ∀ i : Fin g.nodes.length, p.groupOf i = e (q.groupOf i) := congrFun he
  rw [← hpi, ← hpi]
  exact hij

/-- A partition on the way to the coarsest stable one: its groups have numbers without gaps and
nodes of one key each, and no stable partition is cut by it. -/
structure Approximates (g : Graph) (s : SummarySettings) (p : Partition) : Prop where
  length : p.length = g.nodes.length
  dense : ∀ x, x ∈ p ↔ x < p.groupCount
  key : ∀ i j, p.kernel g i j → g.nodeKey s i = g.nodeKey s j
  coarse : ∀ r, g.Stable s r → r ≤ p.kernel g

/-- The numbers of the keys are on the way. -/
theorem approximates_numbering :
    Approximates g s (numbering (g.nodes.map fun n => n.attributes.key s.nodeAttributes)) := by
  have hkernel : ∀ i j : Fin g.nodes.length,
      kernel g (numbering (g.nodes.map fun n => n.attributes.key s.nodeAttributes)) i j ↔
        g.nodeKey s i = g.nodeKey s j := by
    intro i j
    rw [kernel_iff, groupOf_numbering_inj (by simp) (by simp), ← Graph.key_node, ← Graph.key_node]
    simp [Graph.node]
  refine ⟨by simp, fun x => mem_numbering_iff, fun i j h => (hkernel i j).1 h, ?_⟩
  intro r hr i j hij
  exact (hkernel i j).2 (Graph.nodeKey_eq_iff.2 (hr.shown i j hij))

/-- A round stays on the way. -/
theorem Approximates.split (h : Approximates g s p) :
    Approximates g s (p.split (g.typedArcs s)) := by
  refine ⟨by rw [length_split, h.length], fun x => mem_numbering_iff, ?_, ?_⟩
  · intro i j hij
    exact h.key i j (kernel_split_le h.length hij)
  · intro r hr i j hij
    refine (kernel_split_iff h.length).2 ⟨h.coarse r hr hij, ?_⟩
    exact Graph.reached_mono (h.coarse r hr) (hr.reached i j hij)

/-- A round that adds no group has come to a stable partition. -/
theorem Approximates.stable_split (h : Approximates g s p)
    (hcount : (p.split (g.typedArcs s)).groupCount = p.groupCount) :
    g.Stable s ((p.split (g.typedArcs s)).kernel g) := by
  have le := kernel_split_le (s := s) h.length
  have ge := (groupCount_of_kernel_le h.length h.split.length le).2 hcount
  refine ⟨fun i j hij => Graph.nodeKey_eq_iff.1 (h.split.key i j hij), fun i j hij => ?_⟩
  exact Graph.reached_mono ge ((kernel_split_iff h.length).1 hij).2

/-- The rounds end in a stable partition if groups and rounds outnumber the nodes: every round but
the last one adds a group. -/
theorem Approximates.refineWithin (h : Approximates g s p) {rounds : ℕ}
    (hrounds : g.nodes.length < p.groupCount + rounds) :
    Approximates g s (refineWithin (g.typedArcs s) rounds p) ∧
      g.Stable s ((Partition.refineWithin (g.typedArcs s) rounds p).kernel g) := by
  induction rounds generalizing p with
  | zero =>
    -- without a round left there would be more groups than nodes
    have := groupCount_le_length p
    have := h.length
    omega
  | succ rounds ih =>
    simp only [Partition.refineWithin]
    split
    case isTrue hcount => exact ⟨h.split, h.stable_split hcount⟩
    case isFalse hcount =>
      have le := kernel_split_le (s := s) h.length
      have := (groupCount_of_kernel_le h.length h.split.length le).1
      exact ih h.split (by omega)

end Partition

namespace Graph

variable (g : Graph) (s : SummarySettings)

/-- The partition of a summary is numbered without gaps. -/
theorem approximates_partition : (g.partition s).Approximates g s ∧
    g.Stable s ((g.partition s).kernel g) := by
  refine Partition.approximates_numbering.refineWithin ?_
  rw [List.length_map]
  omega

/-- No stable partition is coarser than the partition of a summary, which is stable. -/
theorem isGreatest_partition : IsGreatest {r | g.Stable s r} ((g.partition s).kernel g) :=
  ⟨(g.approximates_partition s).2, (g.approximates_partition s).1.coarse⟩

end Graph

end GraphCompare
