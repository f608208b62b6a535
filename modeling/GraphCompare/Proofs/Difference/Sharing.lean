import Mathlib
import GraphCompare.Proofs.Difference.Drawing

/-!
# Which entities share a node

A node of a change graph is known by a text alone, so entities with the same id share a node. Signs
keep the labels that were removed and those that were added apart from each other
(`signed_injective`, `signed_ne_signed`), but a common label may itself begin with a sign. It then
shares the node of the removed or added label behind the sign, if both are shown; no other two
entities share one (`Difference.injOn_id_iff`). The number of nodes falls short of the number of
entities by the number of such labels (`Difference.nodeCount_add_shared`).

This does not need what is common to be included: a common label is shown as well if a changed
triple ends at it, as where an operand is taken out of an expression whose text is the operand's
behind a minus sign.
-/

namespace GraphCompare

/-! ## Signs -/

theorem head?_signed (sign : Char) (l : String) : (signed sign l).toList.head? = some sign := by
  rw [signed, String.toList_ofList]
  rfl

theorem signed_injective (sign : Char) : Function.Injective (signed sign) := by
  intro a b h
  have chars : sign :: a.toList = sign :: b.toList := by
    simpa only [signed, String.toList_ofList] using congrArg String.toList h
  exact String.toList_inj.1 (List.cons.inj chars).2

theorem signed_ne_signed {sign sign' : Char} (h : sign ≠ sign') (a b : String) :
    signed sign a ≠ signed sign' b := by
  intro heq
  have heads := head?_signed sign a
  rw [heq, head?_signed] at heads
  exact h (Option.some.inj heads).symm

/-! ## Looking up and counting -/

/-- A list without repetition is as long as the set of its elements is large. -/
theorem length_eq_ncard {α : Type} {l : List α} (hl : l.Nodup) {S : Set α}
    (h : ∀ a, a ∈ l ↔ a ∈ S) : l.length = S.ncard := by
  classical
  have elements : S = l.toFinset := by
    ext a
    rw [List.coe_toFinset, Set.mem_ofPred_eq, h]
  rw [elements, Set.ncard_coe_finset, List.toFinset_card_of_nodup hl]

namespace Graph

theorem finite_labels (g : Graph) : g.labels.Finite :=
  (List.finite_toSet (g.nodes.map Node.label)).subset fun _ ⟨n, hn, hl⟩ =>
    List.mem_map.2 ⟨n, hn, hl⟩

/-- Ids that are looked up to the same node are the same. -/
theorem node?_inj {g : Graph} {id id' : NodeId} (hid : id ∈ g.nodes.map Node.id) :
    g.node? id = g.node? id' ↔ id = id' := by
  obtain ⟨n, hn, rfl⟩ := List.mem_map.1 hid
  have found : g.node? n.id = some n := node?_eq_some_iff.2 ⟨hn, rfl⟩
  rw [found, eq_comm, node?_eq_some_iff]
  exact and_iff_right hn

end Graph

namespace Difference

/-- The ids of the labels that were removed or added. -/
def signedIds (A B : Graph) : Set NodeId :=
  signed '-' '' (A.labels \ B.labels) ∪ signed '+' '' (B.labels \ A.labels)

/-- The common labels that are shown. -/
def commonIds (A B : Graph) (includeCommon : Bool) : Set NodeId :=
  {l | Shown A B includeCommon (.common l)}

variable {A B : Graph} {includeCommon : Bool}

/-- Entities with the same id are the same, unless one is a common label that reads like the
other. -/
theorem eq_of_id_eq {e e' : Entity}
    (apart : Disjoint (signedIds A B) (commonIds A B includeCommon))
    (shown : Shown A B includeCommon e) (shown' : Shown A B includeCommon e')
    (same : e.id = e'.id) : e = e' := by
  have apart := Set.disjoint_left.1 apart
  cases shown with
  | @removed l only =>
    cases shown' with
    | @removed l' => rw [signed_injective '-' same]
    | @added l' => exact absurd same (signed_ne_signed (by decide) l l')
    | common both needed => exact absurd (.common both needed) (apart (.inl ⟨l, only, same⟩))
  | @added l only =>
    cases shown' with
    | @removed l' => exact absurd same (signed_ne_signed (by decide) l l')
    | @added l' => rw [signed_injective '+' same]
    | common both needed => exact absurd (.common both needed) (apart (.inr ⟨l, only, same⟩))
  | common both needed =>
    have shown := Shown.common both needed
    cases shown' with
    | @removed l' only => exact absurd shown (apart (.inl ⟨l', only, same.symm⟩))
    | @added l' only => exact absurd shown (apart (.inr ⟨l', only, same.symm⟩))
    | common => exact congrArg Entity.common same

/-- Entities share ids exactly if a common label that is shown reads like a signed one. -/
theorem injOn_id_iff : Set.InjOn Entity.id {e | Shown A B includeCommon e} ↔
    Disjoint (signedIds A B) (commonIds A B includeCommon) := by
  constructor
  · intro inj
    rw [Set.disjoint_left]
    rintro id (⟨l, only, rfl⟩ | ⟨l, only, rfl⟩) both
    · cases inj (.removed only : Shown A B includeCommon (.removed l)) both rfl
    · cases inj (.added only : Shown A B includeCommon (.added l)) both rfl
  · intro apart e shown e' shown' same
    exact eq_of_id_eq apart shown shown' same

/-- Nodes are shared where ids are. -/
theorem injOn_node?_iff :
    Set.InjOn (fun e : Entity => (ofGraphs A B includeCommon).graph.node? e.id)
        {e | Shown A B includeCommon e} ↔
      Set.InjOn Entity.id {e | Shown A B includeCommon e} := by
  have same : ∀ e e' : Entity, Shown A B includeCommon e →
      ((ofGraphs A B includeCommon).graph.node? e.id =
        (ofGraphs A B includeCommon).graph.node? e'.id ↔ e.id = e'.id) := fun e _ shown =>
    Graph.node?_inj (mem_ids_ofGraphs.2 ⟨e, shown, rfl⟩)
  constructor
  · intro inj e shown e' shown' h
    exact inj shown shown' ((same e e' shown).2 h)
  · intro inj e shown e' shown' h
    exact inj shown shown' ((same e e' shown).1 h)

/-! ## Counting nodes -/

theorem finite_commonIds : (commonIds A B includeCommon).Finite :=
  A.finite_labels.subset fun _ shown => by
    cases shown with
    | common both => exact both.1

theorem finite_signed (A B : Graph) (sign : Char) :
    (signed sign '' (A.labels \ B.labels)).Finite :=
  (A.finite_labels.subset Set.sdiff_subset).image _

/-- The signed ids of removed and added labels are all different. -/
theorem ncard_signedIds :
    (signedIds A B).ncard = (A.labels \ B.labels).ncard + (B.labels \ A.labels).ncard := by
  have apart : Disjoint (signed '-' '' (A.labels \ B.labels))
      (signed '+' '' (B.labels \ A.labels)) := by
    rw [Set.disjoint_left]
    rintro _ ⟨l, -, rfl⟩ ⟨l', -, same⟩
    exact signed_ne_signed (by decide) l' l same
  rw [signedIds, Set.ncard_union_eq apart (finite_signed A B '-') (finite_signed B A '+'),
    Set.ncard_image_of_injective _ (signed_injective '-'),
    Set.ncard_image_of_injective _ (signed_injective '+')]

/-- The ids of a change graph are those of signed labels and those of common ones. -/
theorem mem_ids_iff {id : NodeId} : id ∈ (ofGraphs A B includeCommon).graph.nodes.map Node.id ↔
    id ∈ signedIds A B ∪ commonIds A B includeCommon := by
  rw [mem_ids_ofGraphs]
  constructor
  · rintro ⟨e, shown, rfl⟩
    cases shown with
    | removed only => exact .inl (.inl ⟨_, only, rfl⟩)
    | added only => exact .inl (.inr ⟨_, only, rfl⟩)
    | common both needed => exact .inr (.common both needed)
  · rintro ((⟨l, only, rfl⟩ | ⟨l, only, rfl⟩) | shown)
    · exact ⟨_, .removed only, rfl⟩
    · exact ⟨_, .added only, rfl⟩
    · exact ⟨_, shown, rfl⟩

variable (A B includeCommon)

theorem length_addedNodes : (ofGraphs A B includeCommon).addedNodes.toList.length =
    (B.labels \ A.labels).ncard :=
  length_eq_ncard (SortedSet.increasing _).nodup (mem_addedNodes A B includeCommon)

theorem length_removedNodes : (ofGraphs A B includeCommon).removedNodes.toList.length =
    (A.labels \ B.labels).ncard :=
  length_eq_ncard (SortedSet.increasing _).nodup (mem_removedNodes A B includeCommon)

/-- There are as many nodes as entities, less the common labels that read like signed ones. -/
theorem nodeCount_add_shared : (ofGraphs A B includeCommon).graph.nodeCount +
    (signedIds A B ∩ commonIds A B includeCommon).ncard =
      (ofGraphs A B includeCommon).removedNodes.toList.length +
        (ofGraphs A B includeCommon).addedNodes.toList.length +
          (commonIds A B includeCommon).ncard := by
  have nodes := length_eq_ncard (ofGraphs A B includeCommon).graph.nodup_ids
    fun _ => mem_ids_iff
  rw [List.length_map] at nodes
  rw [Graph.nodeCount, nodes, length_removedNodes, length_addedNodes, ← ncard_signedIds]
  exact Set.ncard_union_add_ncard_inter _ _
    ((finite_signed A B '-').union (finite_signed B A '+')) finite_commonIds

variable {A B}

/-- **Which entities share a node.** In the change graph of two graphs with nodes, whether what is
common is included or not, the removed labels, the added labels and the common ones that are shown
have nodes of their own exactly if no such common label reads like a removed or added one behind its
sign. The number of nodes is that of the entities less the number of common labels that do. -/
theorem between_apart_iff (hA : A.nodes ≠ []) (hB : B.nodes ≠ []) :
    (Set.InjOn (fun e : Entity => (between (some A) (some B) includeCommon).graph.node? e.id)
        {e | Shown A B includeCommon e} ↔
      Disjoint (signedIds A B) (commonIds A B includeCommon)) ∧
    (between (some A) (some B) includeCommon).graph.nodeCount +
        (signedIds A B ∩ commonIds A B includeCommon).ncard =
      (between (some A) (some B) includeCommon).removedNodes.toList.length +
        (between (some A) (some B) includeCommon).addedNodes.toList.length +
          (commonIds A B includeCommon).ncard := by
  rw [between_of_nodes hA hB]
  exact ⟨injOn_node?_iff.trans injOn_id_iff, nodeCount_add_shared A B includeCommon⟩

/-- No label begins with a sign, so the removed call, the added one and their caller are apart. -/
theorem apart_callOf :
    ((callOf "old").nodes ≠ [] ∧ (callOf "new").nodes ≠ []) ∧
      Set.InjOn (fun e : Entity =>
          (between (some (callOf "old")) (some (callOf "new")) false).graph.node? e.id)
        {e | Shown (callOf "old") (callOf "new") false e} := by
  have nodes : (callOf "old").nodes ≠ [] ∧ (callOf "new").nodes ≠ [] := by decide
  refine ⟨nodes, (between_apart_iff false nodes.1 nodes.2).1.2 ?_⟩
  have plain : ∀ n ∈ (callOf "old").nodes,
      n.label.toList.head? ≠ some '-' ∧ n.label.toList.head? ≠ some '+' := by decide
  rw [Set.disjoint_left]
  rintro _ (⟨l, -, rfl⟩ | ⟨l, -, rfl⟩) (_ | _ | ⟨⟨⟨n, hn, hl⟩, -⟩, -⟩)
  · exact (plain n hn).1 (by rw [hl, head?_signed])
  · exact (plain n hn).2 (by rw [hl, head?_signed])

/-- The negation of a variable. -/
def negation : Graph where
  nodes := [⟨"expression", .ofLabel "-x"⟩, ⟨"operand", .ofLabel "x"⟩]
  arcs := [⟨0, 1, .ofLabel "ast"⟩]
  nodup_ids := by decide
  arcs_inside := by simp

/-- The expression without its operand. -/
def bareNegation : Graph where
  nodes := [⟨"expression", .ofLabel "-x"⟩]
  arcs := []
  nodup_ids := by decide
  arcs_inside := by simp

/-- The operand is removed and so is its edge, at which the expression ends, whose text reads like
the removed operand's. The two share a node although what is common is not included. -/
theorem not_apart_negation :
    ¬ Set.InjOn (fun e : Entity =>
        (between (some negation) (some bareNegation) false).graph.node? e.id)
      {e | Shown negation bareNegation false e} ∧
    (between (some negation) (some bareNegation) false).graph.nodeCount ≠
      (between (some negation) (some bareNegation) false).removedNodes.toList.length +
        (between (some negation) (some bareNegation) false).addedNodes.toList.length +
          (commonIds negation bareNegation false).ncard := by
  have operand : "x" ∈ negation.labels \ bareNegation.labels :=
    ⟨Graph.mem_labelSet.1 (by decide), fun h => absurd (Graph.mem_labelSet.2 h) (by decide)⟩
  have expression : Shown negation bareNegation false (.common "-x") := by
    have edge : (⟨"-x", "x", "ast"⟩ : EdgeTriple) ∈ negation.triples \ bareNegation.triples :=
      ⟨Graph.mem_tripleSet.1 (by decide), fun h => absurd (Graph.mem_tripleSet.2 h) (by decide)⟩
    exact .common ⟨Graph.mem_labelSet.1 (by decide), Graph.mem_labelSet.1 (by decide)⟩
      (.inr ⟨_, .inl edge, .inl rfl⟩)
  have same : signed '-' "x" = "-x" := by decide
  constructor
  · intro inj
    cases inj (.removed operand : Shown _ _ _ (.removed "x")) expression (congrArg _ same)
  · have shared : 0 < (signedIds negation bareNegation ∩
        commonIds negation bareNegation false).ncard :=
      (Set.ncard_pos (finite_commonIds.inter_of_right _)).2
        ⟨"-x", .inl ⟨"x", operand, same⟩, expression⟩
    have count := nodeCount_add_shared negation bareNegation false
    rw [between_of_nodes (by decide) (by decide)]
    omega

end Difference

end GraphCompare
