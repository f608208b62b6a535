import Mathlib
import GraphCompare.Proofs.Edit.Assignment

/-!
# The leaves of the search

`Problem.leaves` lists all complete mappings in the order in which a depth-first search without any
pruning comes to them, each with its cost, and `Problem.exhaustive` is the first of them that costs
least. The leaves are the complete assignments with their totals (`mem_leaves`).

The search with pruning ends as if it had gone through all leaves and kept each that was cheaper
than the cost to beat (`expand_eq_foldl_keep`). A choice that it leaves out has an estimate that is
not below the cost to beat, so none of its leaves is; and since the cost to beat never rises, it
does not matter that the choices are weighed a first time before any of them is followed. The bound
is just the cost to beat at the start, so all that it decides is whether the first of the cheapest
leaves is kept, and not which one (`solve_eq_filter`).
-/

namespace GraphCompare.Edit

open Assignment (sources targets)
open Problem (Candidate Progress)

/-! ## The choices for a node -/

variable {A B : Graph}

/-- The complete assignments that continue an assignment by the remaining nodes in their order. -/
def completions (A B : Graph) (rest : List ℕ) (a : Assignment) : Set Assignment :=
  {b | Complete A B b ∧ ∃ c, b = a ++ c ∧ c.sources = rest}

/-- An assignment that can still be completed: with the nodes that remain it covers every node
once, and no two nodes go to one. -/
structure Started (A B : Graph) (rest : List ℕ) (a : Assignment) : Prop where
  sources_perm : (a.sources ++ rest).Perm (List.range A.nodeCount)
  targets_nodup : a.targets.Nodup
  targets_lt : ∀ v ∈ a.targets, v < B.nodeCount

/-- What a node may be mapped to. -/
def choices (A B : Graph) (a : Assignment) : List Target :=
  ((Problem.ofGraphs A B).unused a).map some ++ [none]

theorem none_mem_choices (a : Assignment) : none ∈ choices A B a := by
  simp [choices]

theorem some_mem_choices {a : Assignment} {v : ℕ} :
    some v ∈ choices A B a ↔ v < B.nodeCount ∧ v ∉ a.targets := by
  simp [choices, mem_unused]

theorem Started.complete {a : Assignment} (h : Started A B [] a) : Complete A B a :=
  ⟨by simpa using h.sources_perm, h.targets_nodup, h.targets_lt⟩

/-- A choice for the next node keeps an assignment completable. -/
theorem Started.snoc {rest : List ℕ} {a : Assignment} {u : ℕ} {t : Target}
    (h : Started A B (u :: rest) a) (ht : t ∈ choices A B a) :
    Started A B rest (a ++ [(u, t)]) := by
  have hs : ((a ++ [(u, t)] : Assignment).sources ++ rest).Perm (List.range A.nodeCount) := by
    simpa [sources] using h.sources_perm
  cases t with
  | none =>
    refine ⟨hs, ?_, ?_⟩
    · simpa [targets] using h.targets_nodup
    · simpa [targets] using h.targets_lt
  | some v =>
    obtain ⟨hlt, hv⟩ := some_mem_choices.1 ht
    have htargets : (a ++ [(u, some v)] : Assignment).targets = a.targets ++ [v] := by
      simp [targets]
    refine ⟨hs, ?_, ?_⟩
    · rw [htargets, List.nodup_append']
      exact ⟨h.targets_nodup, List.nodup_singleton v, by simpa using hv⟩
    · rw [htargets]
      intro w hw
      rcases List.mem_append.1 hw with hw | hw
      · exact h.targets_lt w hw
      · rwa [List.mem_singleton.1 hw]

/-- Every completion makes one of the choices for the next node. -/
theorem exists_choice {rest : List ℕ} {a b : Assignment} {u : ℕ}
    (hb : b ∈ completions A B (u :: rest) a) :
    ∃ t ∈ choices A B a, b ∈ completions A B rest (a ++ [(u, t)]) := by
  obtain ⟨h, c, rfl, hc⟩ := hb
  cases c with
  | nil => cases hc
  | cons e c =>
    obtain ⟨u', t⟩ := e
    simp only [sources, List.map_cons, List.cons.injEq] at hc
    obtain ⟨rfl, hc⟩ := hc
    refine ⟨t, ?_, h, c, by simp, hc⟩
    cases t with
    | none => exact none_mem_choices a
    | some v =>
      have hn := h.targets_nodup
      have hlt := h.targets_lt v (by simp [targets])
      rw [Assignment.targets_append] at hn
      refine some_mem_choices.2 ⟨hlt, fun hv => ?_⟩
      exact (List.nodup_append'.1 hn).2.2 hv (by simp [targets])

/-- The estimate of a choice stays below every completion that makes it. -/
theorem estimate_le_total {rest : List ℕ} {a b : Assignment} {u : ℕ} {t : Target}
    (hb : b ∈ completions A B rest (a ++ [(u, t)])) :
    ((Problem.ofGraphs A B).candidate a (charged A.shape B.shape a) u t).estimate ≤
      total A B b := by
  obtain ⟨h, c, rfl, -⟩ := hb
  have hle := h.charged_add_lowerBound_le
  rwa [charged_snoc] at hle

/-- All choices for a node are candidates. -/
theorem mem_candidates {a : Assignment} {cost u : ℕ} {c : Problem.Candidate} :
    c ∈ (Problem.ofGraphs A B).candidates a cost u ↔
      ∃ t ∈ choices A B a, (Problem.ofGraphs A B).candidate a cost u t = c := by
  rw [Problem.candidates, List.mem_mergeSort, List.mem_map]
  rfl

/-! ## Going through all leaves -/

namespace Problem

variable (p : Problem)

/-- All complete mappings that continue an assignment, each with its cost, in the order in which a
depth-first search that leaves nothing out comes to them. -/
def leaves : (remaining : List ℕ) → Assignment → (cost : ℕ) → List (ℕ × Assignment)
  | [], a, cost => [(cost + p.completionCost a, a)]
  | u :: rest, a, cost =>
    (p.candidates a cost u).flatMap fun c => leaves rest (a ++ [(u, c.target)]) (cost + c.step)

/-- The first of the complete mappings of least cost. -/
def exhaustive : Option (ℕ × Assignment) := (p.leaves p.order [] 0).argmin Prod.fst

/-- Takes up a complete mapping if it is cheaper than the cost to beat. -/
def Progress.keep (s : Progress) (leaf : ℕ × Assignment) : Progress :=
  if leaf.1 < s.limit then ⟨leaf.1, some leaf⟩ else s

namespace Progress

variable {s : Progress} {l : List (ℕ × Assignment)}

theorem keep_of_le {leaf : ℕ × Assignment} (h : s.limit ≤ leaf.1) : s.keep leaf = s :=
  if_neg h.not_gt

theorem limit_keep_le (s : Progress) (leaf : ℕ × Assignment) : (s.keep leaf).limit ≤ s.limit := by
  rw [keep]
  split <;> rename_i h
  · exact h.le
  · exact le_rfl

/-- Of two mappings the second is kept only if it is cheaper. -/
theorem keep_keep (s : Progress) (leaf next : ℕ × Assignment) :
    (s.keep leaf).keep next = if next.1 < leaf.1 then s.keep next else s.keep leaf := by
  by_cases hleaf : leaf.1 < s.limit
  · have hkept : s.keep leaf = ⟨leaf.1, some leaf⟩ := if_pos hleaf
    rw [hkept, keep]
    split <;> rename_i hnext
    · exact (if_pos (hnext.trans hleaf)).symm
    · rfl
  · rw [keep_of_le (not_lt.1 hleaf)]
    split <;> rename_i hnext
    · rfl
    · exact keep_of_le ((not_lt.1 hleaf).trans (not_lt.1 hnext))

/-- **Of a list of mappings the first of least cost is kept**, if it is cheaper than the cost to
beat. -/
theorem foldl_keep (s : Progress) (l : List (ℕ × Assignment)) :
    l.foldl keep s = (l.argmin Prod.fst).elim s s.keep := by
  induction l using List.reverseRecOn with
  | nil => rfl
  | append_singleton l leaf ih =>
    rw [List.foldl_append, ih, List.argmin_concat, List.foldl_cons, List.foldl_nil]
    cases l.argmin Prod.fst with
    | none => rfl
    | some least =>
      rw [Option.elim_some, keep_keep]
      dsimp only
      split <;> rfl

/-- The cost to beat never rises. -/
theorem limit_foldl_keep_le (s : Progress) (l : List (ℕ × Assignment)) :
    (l.foldl keep s).limit ≤ s.limit := by
  rw [foldl_keep]
  cases l.argmin Prod.fst with
  | none => exact le_rfl
  | some least => exact limit_keep_le s least

/-- Mappings that do not undercut the cost to beat change nothing. -/
theorem foldl_keep_of_le (h : ∀ leaf ∈ l, s.limit ≤ leaf.1) : l.foldl keep s = s := by
  rw [foldl_keep]
  cases hmin : l.argmin Prod.fst with
  | none => rfl
  | some least => exact keep_of_le (h least (List.argmin_mem hmin))

end Progress

end Problem

variable {rest : List ℕ} {a : Assignment}

/-- The leaves below an assignment are its completions, each with its total. -/
theorem mem_leaves (h : Started A B rest a) {leaf : ℕ × Assignment} :
    leaf ∈ (Problem.ofGraphs A B).leaves rest a (charged A.shape B.shape a) ↔
      ∃ b ∈ completions A B rest a, leaf = (total A B b, b) := by
  induction rest generalizing a with
  | nil =>
    rw [Problem.leaves, List.mem_singleton]
    constructor
    · rintro rfl
      exact ⟨a, ⟨h.complete, [], by simp, rfl⟩, rfl⟩
    · rintro ⟨b, ⟨-, c, rfl, hc⟩, rfl⟩
      rw [List.map_eq_nil_iff.1 hc, List.append_nil]
      rfl
  | cons u rest ih =>
    rw [Problem.leaves, List.mem_flatMap]
    constructor
    · rintro ⟨c, hc, hleaf⟩
      obtain ⟨t, ht, rfl⟩ := mem_candidates.1 hc
      have hcharged := charged_snoc A B a u t
      obtain ⟨b, ⟨hb, d, rfl, hd⟩, rfl⟩ := (ih (h.snoc ht)).1 (hcharged ▸ hleaf)
      exact ⟨_, ⟨hb, (u, t) :: d, by simp, by simpa [sources] using hd⟩, rfl⟩
    · rintro ⟨b, hb, rfl⟩
      obtain ⟨t, ht, hbt⟩ := exists_choice hb
      refine ⟨_, mem_candidates.2 ⟨t, ht, rfl⟩, ?_⟩
      have hleaf := (ih (h.snoc ht)).2 ⟨b, hbt, rfl⟩
      rwa [charged_snoc] at hleaf

section Follow

variable {u : ℕ}
  (ih : ∀ (a : Assignment) (s : Progress), Started A B rest a →
    (Problem.ofGraphs A B).expand rest a (charged A.shape B.shape a) s =
      ((Problem.ofGraphs A B).leaves rest a (charged A.shape B.shape a)).foldl Progress.keep s)
  (h : Started A B (u :: rest) a)
include ih h

/-- A choice that is followed keeps what its leaves keep, and so does a choice that is left out. -/
theorem follow_eq_foldl_keep {c : Candidate}
    (hc : c ∈ (Problem.ofGraphs A B).candidates a (charged A.shape B.shape a) u) (s : Progress) :
    (if c.estimate < s.limit then
      (Problem.ofGraphs A B).expand rest (a ++ [(u, c.target)])
        (charged A.shape B.shape a + c.step) s
    else s) =
      ((Problem.ofGraphs A B).leaves rest (a ++ [(u, c.target)])
        (charged A.shape B.shape a + c.step)).foldl Progress.keep s := by
  obtain ⟨t, ht, rfl⟩ := mem_candidates.1 hc
  have hcharged : charged A.shape B.shape a + (Problem.ofGraphs A B).stepCost a u t =
      charged A.shape B.shape (a ++ [(u, t)]) := (charged_snoc A B a u t).symm
  simp only [Problem.candidate, hcharged]
  split <;> rename_i hlt
  · exact ih _ s (h.snoc ht)
  · refine (Progress.foldl_keep_of_le fun leaf hleaf => (not_lt.1 hlt).trans ?_).symm
    obtain ⟨b, hb, rfl⟩ := (mem_leaves (h.snoc ht)).1 hleaf
    have hle := estimate_le_total hb
    rwa [Problem.candidate, hcharged] at hle

/-- The choices that are left out before the first is followed would be left out in their turn: the
cost to beat has not risen since they were weighed. -/
theorem foldl_filter_eq_foldl_keep (start : ℕ) (cs : List Candidate)
    (hcs : ∀ c ∈ cs, c ∈ (Problem.ofGraphs A B).candidates a (charged A.shape B.shape a) u)
    (s : Progress) (hs : s.limit ≤ start) :
    (cs.filter fun c => c.estimate < start).foldl (fun s c =>
        if c.estimate < s.limit then
          (Problem.ofGraphs A B).expand rest (a ++ [(u, c.target)])
            (charged A.shape B.shape a + c.step) s
        else s) s =
      (cs.flatMap fun c => (Problem.ofGraphs A B).leaves rest (a ++ [(u, c.target)])
        (charged A.shape B.shape a + c.step)).foldl Progress.keep s := by
  induction cs generalizing s with
  | nil => rfl
  | cons c cs ihcs =>
    have hfollow := follow_eq_foldl_keep ih h (hcs c List.mem_cons_self) s
    have hrest := ihcs fun c hc => hcs c (List.mem_cons_of_mem _ hc)
    rw [List.flatMap_cons, List.foldl_append, ← hfollow, List.filter_cons]
    split <;> rename_i hstart
    · rw [List.foldl_cons]
      refine hrest _ ?_
      rw [hfollow]
      exact (Progress.limit_foldl_keep_le s _).trans hs
    · rw [if_neg fun hlt => hstart (decide_eq_true (hlt.trans_le hs))]
      exact hrest s hs

end Follow

/-- **Pruning leaves out nothing that would be kept.** A branch of the search ends as if it had gone
through all leaves. -/
theorem expand_eq_foldl_keep (rest : List ℕ) (a : Assignment) (s : Progress)
    (h : Started A B rest a) :
    (Problem.ofGraphs A B).expand rest a (charged A.shape B.shape a) s =
      ((Problem.ofGraphs A B).leaves rest a (charged A.shape B.shape a)).foldl Progress.keep s := by
  induction rest generalizing a s with
  | nil => rfl
  | cons u rest ih =>
    rw [Problem.expand, Problem.leaves]
    exact foldl_filter_eq_foldl_keep (fun a s => ih a s) h _ _ (fun c hc => hc) s le_rfl

/-! ## The answer of the search -/

/-- The order takes every node of the first graph once. -/
theorem order_perm : (Problem.ofGraphs A B).order.Perm (List.range A.nodeCount) := by
  have h := List.mergeSort_perm (List.range (Problem.ofGraphs A B).first.size)
    fun u w => (Problem.ofGraphs A B).first.degree w ≤ (Problem.ofGraphs A B).first.degree u
  simpa [Problem.order, Problem.ofGraphs] using h

/-- Nothing has been assigned at the root. -/
theorem started_nil : Started A B (Problem.ofGraphs A B).order [] :=
  ⟨order_perm, .nil, nofun⟩

/-- The search finds what an exhaustive search finds, if that stays below the cost to beat. -/
theorem solve_eq_filter (bound : ℕ) :
    (Problem.ofGraphs A B).solve bound =
      (Problem.ofGraphs A B).exhaustive.filter
        fun leaf => leaf.1 < min (bound + 1) Problem.maxSize := by
  have hrun : (Problem.ofGraphs A B).expand (Problem.ofGraphs A B).order [] 0
      ⟨min (bound + 1) Problem.maxSize, none⟩ =
        (Problem.ofGraphs A B).exhaustive.elim ⟨min (bound + 1) Problem.maxSize, none⟩
          (Progress.keep ⟨min (bound + 1) Problem.maxSize, none⟩) :=
    (expand_eq_foldl_keep _ [] _ started_nil).trans (Progress.foldl_keep _ _)
  rw [Problem.solve, hrun]
  cases (Problem.ofGraphs A B).exhaustive with
  | none => rfl
  | some least =>
    rw [Option.elim_some, Progress.keep, Option.filter_some]
    simp only [decide_eq_true_eq]
    split <;> rfl

end GraphCompare.Edit
