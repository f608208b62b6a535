import Mathlib
import GraphCompare.Graph.Store

/-!
# Where chains of edges lead

A new edge is put in front of the chain at its end (`Chains.push`), so an edge from a node to itself
is in a chain of edges that leave the node and in a chain of edges that reach it, and edges between
the same nodes are all in the same two chains. `Chains.leads_ofEnds` says where the chains lead
after any number of edges: to exactly those with an end at the place, each once, by falling number.
A walk along a chain is long enough to meet all of them (`Chains.walk_ofEnds`).
-/

namespace GraphCompare

/-! ## Numbers of edges by their end -/

/-- The places at which an end comes in a list of ends, the last one first. -/
def placesOf {α : Type} [DecidableEq α] (ends : List α) (x : α) : List ℕ :=
  ((List.range ends.length).filter fun k => ends[k]? = some x).reverse

section
variable {α β : Type} [DecidableEq α] {ends : List α} {x : α}

theorem mem_placesOf {k : ℕ} : k ∈ placesOf ends x ↔ ends[k]? = some x := by
  rw [placesOf, List.mem_reverse, List.mem_filter, List.mem_range, decide_eq_true_eq]
  constructor
  · exact And.right
  · intro hk
    exact ⟨(List.getElem?_eq_some_iff.1 hk).1, hk⟩

theorem pairwise_placesOf : (placesOf ends x).Pairwise (· > ·) :=
  List.pairwise_reverse.2 (List.pairwise_lt_range.filter _)

/-- A new end comes last, so its place comes first. -/
theorem placesOf_concat (ends : List α) (x y : α) : placesOf (ends ++ [y]) x =
    if y = x then ends.length :: placesOf ends x else placesOf ends x := by
  have before : (List.range ends.length).filter (fun k => (ends ++ [y])[k]? = some x) =
      (List.range ends.length).filter fun k => ends[k]? = some x := by
    refine List.filter_congr fun k hk => ?_
    rw [List.getElem?_append_left (List.mem_range.1 hk)]
  rw [placesOf, List.length_append, List.length_singleton, List.range_succ, List.filter_append,
    before, List.reverse_append, List.filter_singleton, List.getElem?_concat_length]
  by_cases hy : y = x
  · simp [hy, placesOf]
  · simp [hy, placesOf]

/-- Places depend on nothing but where the end is. -/
theorem placesOf_congr [DecidableEq β] {ends' : List β} {y : β}
    (length : ends.length = ends'.length)
    (same : ∀ k : ℕ, ends[k]? = some x ↔ ends'[k]? = some y) :
    placesOf ends x = placesOf ends' y := by
  rw [placesOf, placesOf, length]
  simp only [same]

/-- What is chosen from a list by a key and then reversed is what is at the places of the key. -/
theorem map_some_reverse_filter (key : β → α) (l : List β) (x : α) :
    (l.filter (key · == x)).reverse.map some = (placesOf (l.map key) x).map (l[·]?) := by
  induction l using List.reverseRecOn with
  | nil => rfl
  | append_singleton l y ih =>
    have before : (placesOf (l.map key) x).map ((l ++ [y])[·]?) =
        (placesOf (l.map key) x).map (l[·]?) := by
      refine List.map_congr_left fun k hk => List.getElem?_append_left ?_
      simpa using (List.getElem?_eq_some_iff.1 (mem_placesOf.1 hk)).1
    rw [List.filter_append, List.reverse_append, List.map_append, ih, List.map_append,
      List.map_singleton, placesOf_concat, ← before, List.length_map]
    by_cases hy : key y = x
    · simp [hy]
    · simp [hy]

/-- What is read at the places of a key is what is chosen by the key. -/
theorem filterMap_placesOf {γ : Type} (key : β → α) (f : β → γ) (l : List β) (x : α) :
    (placesOf (l.map key) x).filterMap (fun k => l[k]?.map f) =
      (l.filter (key · == x)).reverse.map f := by
  have chosen := congrArg (List.filterMap (Option.map f)) (map_some_reverse_filter key l x)
  rw [List.filterMap_map, List.filterMap_map] at chosen
  exact chosen.symm.trans (congrFun List.filterMap_eq_map _)

end

/-! ## Chains -/

namespace Chains

/-- The numbers that are met on the way along a chain. -/
inductive Leads (c : Chains) : Option ℕ → List ℕ → Prop where
  | stop : c.Leads none []
  | step {k : ℕ} {next : Option ℕ} {ks : List ℕ} (hk : c.older[k]? = some next)
    (rest : c.Leads next ks) : c.Leads (some k) (k :: ks)

variable {c : Chains}

/-- What is in a chain stays there. -/
theorem Leads.push {start : Option ℕ} {ks : List ℕ} (way : c.Leads start ks) (i : ℕ) :
    (c.push i).Leads start ks := by
  induction way with
  | stop => exact .stop
  | step hk _ ih =>
    refine .step ?_ ih
    rw [Chains.push, List.getElem?_append_left (List.getElem?_eq_some_iff.1 hk).1, hk]

/-- A new edge leads to those that were there. -/
theorem Leads.push_newest {i : ℕ} {ks : List ℕ} (way : c.Leads (c.newest i) ks) :
    (c.push i).Leads ((c.push i).newest i) (c.older.length :: ks) := by
  have front : (c.push i).newest i = some c.older.length := if_pos rfl
  rw [front]
  exact .step List.getElem?_concat_length (way.push i)

theorem ofEnds_concat (ends : List ℕ) (j : ℕ) : ofEnds (ends ++ [j]) = (ofEnds ends).push j :=
  List.foldl_concat ..

theorem length_older_ofEnds (ends : List ℕ) : (ofEnds ends).older.length = ends.length := by
  induction ends using List.reverseRecOn with
  | nil => rfl
  | append_singleton ends j ih =>
    rw [ofEnds_concat, push, List.length_append, List.length_append, ih]
    rfl

/-- A chain leads to the edges with their end at its position, the newest one first. -/
theorem leads_ofEnds (ends : List ℕ) (i : ℕ) :
    (ofEnds ends).Leads ((ofEnds ends).newest i) (placesOf ends i) := by
  induction ends using List.reverseRecOn with
  | nil => exact .stop
  | append_singleton ends j ih =>
    rw [ofEnds_concat, placesOf_concat]
    split
    case isTrue hj =>
      subst hj
      rw [← length_older_ofEnds]
      exact ih.push_newest
    case isFalse hj =>
      have same : ((ofEnds ends).push j).newest i = (ofEnds ends).newest i :=
        if_neg (Ne.symm hj)
      rw [same]
      exact ih.push j

/-- A walk meets what a chain leads to, if it may be as long. -/
theorem Leads.walkWithin {start : Option ℕ} {ks : List ℕ} (way : c.Leads start ks) {steps : ℕ}
    (enough : ks.length ≤ steps) : c.walkWithin steps start = ks := by
  induction way generalizing steps with
  | stop => cases steps <;> rfl
  | step hk _ ih =>
    cases steps with
    | zero => cases enough
    | succ steps =>
      rw [Chains.walkWithin, hk, Option.join_some, ih (Nat.le_of_succ_le_succ enough)]

/-- The walk along a chain meets the edges with their end at its place, the newest one first. -/
theorem walk_ofEnds (ends : List ℕ) (i : ℕ) : (ofEnds ends).walk i = placesOf ends i := by
  refine (leads_ofEnds ends i).walkWithin ?_
  rw [length_older_ofEnds, placesOf, List.length_reverse]
  exact (List.length_filter_le _ _).trans_eq List.length_range

end Chains

end GraphCompare
