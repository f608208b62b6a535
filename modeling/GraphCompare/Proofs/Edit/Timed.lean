import Mathlib
import GraphCompare.Proofs.Edit.Exact

/-!
# What a search with a deadline finds

Once a search has noticed that its deadline has passed, it follows no choice any more
(`Timed.foldl_follow_of_timedOut`). So a search that has not noticed it at the end has had time
throughout, and finds what a search without a deadline finds (`expandTimed_progress`). A search that
is cut short finds nothing that is wrong, but maybe not the best: what it reports is a complete
assignment below the cost to beat (`expandTimed_improves`), so its cost lies between the distance
and the bound (`Graph.le_of_searchDistanceBy?`).
-/

namespace GraphCompare.Edit

open Problem (Timed Progress Candidate)

variable {isPast : ℕ → Bool}

/-! ## Looking at the clock -/

namespace Problem.Timed

variable {s : Timed}

@[simp] theorem look_progress : (s.look isPast).progress = s.progress := by
  rw [look]
  split <;> rfl

/-- Once the deadline has passed the clock is read no more. -/
theorem look_of_timedOut (h : s.timedOut) : s.look isPast = s := if_pos h

/-- The deadline is noticed at the next look. -/
theorem timedOut_look (h : isPast s.looks) : (s.look isPast).timedOut := by
  rw [look]
  split <;> rename_i hs
  · exact hs
  · exact h

/-- Weighing choices finds nothing. -/
@[simp] theorem foldl_look_progress {α : Type} (l : List α) :
    (l.foldl (fun s _ => s.look isPast) s).progress = s.progress := by
  induction l generalizing s with
  | nil => rfl
  | cons x l ih => rw [List.foldl_cons, ih, look_progress]

theorem foldl_look_of_timedOut {α : Type} (l : List α) (h : s.timedOut) :
    l.foldl (fun s _ => s.look isPast) s = s := by
  induction l with
  | nil => rfl
  | cons x l ih => rw [List.foldl_cons, look_of_timedOut h, ih]

variable {expand : Assignment → ℕ → Timed → Timed} {a : Assignment} {cost u : ℕ}

/-- Once the deadline has passed no choice is followed. -/
theorem foldl_follow_of_timedOut (cs : List Candidate) (h : s.timedOut) :
    cs.foldl (follow expand a cost u) s = s := by
  induction cs with
  | nil => rfl
  | cons c cs ih => rw [List.foldl_cons, follow, if_pos h, ih]

/-- What a search with time left at the end did, it did with time left. -/
theorem timedOut_of_foldl_follow {cs : List Candidate}
    (h : (cs.foldl (follow expand a cost u) s).timedOut = false) : s.timedOut = false := by
  by_contra hs
  rw [foldl_follow_of_timedOut cs (Bool.eq_true_of_not_eq_false hs)] at h
  exact hs h

end Problem.Timed

variable {p : Problem}

/-- A search whose first look at the clock shows that the deadline has passed finds nothing. -/
theorem expandTimed_of_isPast {rest : List ℕ} {a : Assignment} {cost : ℕ} {s : Timed}
    (h : isPast s.looks) : (p.expandTimed isPast rest a cost s).progress = s.progress := by
  have hlook := Timed.timedOut_look h
  cases rest with
  | nil => rw [Problem.expandTimed, if_pos hlook, Timed.look_progress]
  | cons u rest =>
    rw [Problem.expandTimed, Timed.foldl_look_of_timedOut _ hlook,
      Timed.foldl_follow_of_timedOut _ hlook, Timed.look_progress]

/-! ## A search that has time -/

/-- A search for which the deadline never passes is not cut short. -/
theorem timedOut_expandTimed (never : ∀ k, isPast k = false) {rest : List ℕ} {a : Assignment}
    {cost : ℕ} {s : Timed} (h : s.timedOut = false) :
    (p.expandTimed isPast rest a cost s).timedOut = false := by
  have hlook : ∀ {s : Timed}, s.timedOut = false → (s.look isPast).timedOut = false := by
    intro s hs
    rw [Timed.look, if_neg (by simp [hs])]
    exact never _
  induction rest generalizing a cost s with
  | nil =>
    rw [Problem.expandTimed, if_neg (by simp [hlook h])]
    exact hlook h
  | cons u rest ih =>
    rw [Problem.expandTimed]
    refine List.foldlRecOn (motive := fun s : Timed => s.timedOut = false) _ _ ?_ fun s hs c _ => ?_
    · exact List.foldlRecOn (motive := fun s : Timed => s.timedOut = false) _ _ (hlook h)
        fun s hs _ _ => hlook hs
    · rw [Timed.follow]
      split
      · exact hs
      · split
        · exact ih hs
        · exact hs

/-- Choices that are followed with time left lead where they lead without a deadline. -/
theorem foldl_follow_progress {rest : List ℕ} {a : Assignment} {cost u : ℕ}
    (ih : ∀ a cost s, (p.expandTimed isPast rest a cost s).timedOut = false →
      (p.expandTimed isPast rest a cost s).progress = p.expand rest a cost s.progress)
    (cs : List Candidate) (s : Timed)
    (h : (cs.foldl (Timed.follow (p.expandTimed isPast rest) a cost u) s).timedOut = false) :
    (cs.foldl (Timed.follow (p.expandTimed isPast rest) a cost u) s).progress =
      cs.foldl (fun s c =>
        if c.estimate < s.limit then p.expand rest (a ++ [(u, c.target)]) (cost + c.step) s
        else s) s.progress := by
  induction cs generalizing s with
  | nil => rfl
  | cons c cs ihcs =>
    have hs : s.timedOut = false := Timed.timedOut_of_foldl_follow h
    rw [List.foldl_cons] at h
    have hnext := Timed.timedOut_of_foldl_follow h
    rw [List.foldl_cons, List.foldl_cons, ihcs _ h]
    congr 1
    rw [Timed.follow, if_neg (by simp [hs])] at hnext ⊢
    split at hnext <;> rename_i hlt
    · rw [if_pos hlt, if_pos hlt, ih _ _ _ hnext]
    · rw [if_neg hlt, if_neg hlt]

/-- **A search that ends before its deadline finds what a search without one finds.** -/
theorem expandTimed_progress {rest : List ℕ} {a : Assignment} {cost : ℕ} {s : Timed}
    (h : (p.expandTimed isPast rest a cost s).timedOut = false) :
    (p.expandTimed isPast rest a cost s).progress = p.expand rest a cost s.progress := by
  induction rest generalizing a cost s with
  | nil =>
    rw [Problem.expandTimed] at h ⊢
    split at h <;> rename_i hs
    · simp [hs] at h
    · rw [if_neg hs, Timed.look_progress]
      rfl
  | cons u rest ih =>
    rw [Problem.expandTimed] at h ⊢
    rw [foldl_follow_progress (fun a cost s => ih) _ _ h, Timed.foldl_look_progress,
      Timed.look_progress]
    rfl

/-! ## A search that may run out of time -/

variable {A B : Graph}

/-- A piece of a search keeps the progress or finds a complete assignment below the cost to
beat. -/
def Improves (A B : Graph) (s s' : Progress) : Prop :=
  s' = s ∨ ∃ b, Complete A B b ∧ total A B b < s.limit ∧ s' = ⟨total A B b, some (total A B b, b)⟩

namespace Improves

variable {s s' s'' : Progress}

theorem refl (s : Progress) : Improves A B s s := .inl rfl

theorem trans (h : Improves A B s s') (h' : Improves A B s' s'') : Improves A B s s'' := by
  rcases h' with rfl | ⟨b', hb', hlt', rfl⟩
  · exact h
  · rcases h with rfl | ⟨b, hb, hlt, rfl⟩
    · exact .inr ⟨b', hb', hlt', rfl⟩
    · exact .inr ⟨b', hb', hlt'.trans hlt, rfl⟩

end Improves

/-- Following a list of candidates, as far as time allows, finds complete assignments only. -/
theorem foldl_follow_improves {rest : List ℕ} {a : Assignment} {u : ℕ}
    (ih : ∀ (a : Assignment) (s : Timed), Started A B rest a → Improves A B s.progress
      ((Problem.ofGraphs A B).expandTimed isPast rest a (charged A.shape B.shape a) s).progress)
    (h : Started A B (u :: rest) a) (cs : List Candidate)
    (hcs : ∀ c ∈ cs, ∃ t ∈ choices A B a,
      (Problem.ofGraphs A B).candidate a (charged A.shape B.shape a) u t = c) (s : Timed) :
    Improves A B s.progress (cs.foldl (Timed.follow ((Problem.ofGraphs A B).expandTimed isPast rest)
      a (charged A.shape B.shape a) u) s).progress := by
  induction cs generalizing s with
  | nil => exact .refl _
  | cons c cs ihcs =>
    obtain ⟨t, ht, rfl⟩ := hcs c List.mem_cons_self
    rw [List.foldl_cons]
    refine .trans ?_ (ihcs (fun c hc => hcs c (List.mem_cons_of_mem _ hc)) _)
    rw [Timed.follow]
    split
    · exact .refl _
    · split
      · have hstep := ih _ s (h.snoc ht)
        rwa [charged_snoc] at hstep
      · exact .refl _

/-- **Whatever a search finds before its deadline is complete and below the cost to beat.** -/
theorem expandTimed_improves (rest : List ℕ) (a : Assignment) (s : Timed)
    (h : Started A B rest a) :
    Improves A B s.progress ((Problem.ofGraphs A B).expandTimed isPast rest a
      (charged A.shape B.shape a) s).progress := by
  induction rest generalizing a s with
  | nil =>
    rw [Problem.expandTimed]
    split
    · rw [Timed.look_progress]
      exact .refl _
    · rw [Timed.look_progress, Problem.finish]
      split <;> rename_i hlt
      · exact .inr ⟨a, h.complete, hlt, rfl⟩
      · exact .refl _
  | cons u rest ih =>
    rw [Problem.expandTimed]
    refine .trans (.inl ?_) (foldl_follow_improves (fun a s => ih a s) h _ (fun c hc => ?_) _)
    · rw [Timed.foldl_look_progress, Timed.look_progress]
    · exact mem_candidates.1 (List.mem_of_mem_filter hc)

end GraphCompare.Edit

/-! ## The answer by a clock -/

namespace GraphCompare

open Edit

/-- Whether the search for the distance of two graphs is cut short by its deadline. -/
def Graph.timesOut (clock : Clock) (A B : Graph) (bounds : SearchBounds) : Bool :=
  (searchBy clock A B bounds).timedOut

namespace Graph

variable {A B : Graph} {clock : Clock} {bounds : SearchBounds}

/-- A search that is not cut short finds what a search without limit of time finds. -/
theorem searchDistanceBy?_of_not_timesOut (h : timesOut clock A B bounds = false) :
    searchDistanceBy? clock A B bounds = A.editDistance? B bounds.upperBound := by
  have hprogress := expandTimed_progress h
  have hrun : A.editDistance? B bounds.upperBound =
      (((Problem.ofGraphs A B).solve bounds.upperBound.toNat).map
        (pathOf (Problem.ofGraphs A B))).map EditPath.cost := rfl
  rw [hrun, Option.map_map, Problem.solve, searchDistanceBy?]
  exact congrArg (fun s : Problem.Progress => s.best.map Prod.fst) hprogress

/-- What a search finds, even if it is cut short, lies between the least cost and the bound. -/
theorem le_of_searchDistanceBy? {d : ℕ} (h : searchDistanceBy? clock A B bounds = some d) :
    A.shape.distance B.shape ≤ d ∧ d ≤ bounds.upperBound.toNat := by
  have himproves : Improves A B ⟨min (bounds.upperBound.toNat + 1) Problem.maxSize, none⟩
      (searchBy clock A B bounds).progress :=
    expandTimed_improves _ [] ⟨⟨_, none⟩, 0, false⟩ started_nil
  rw [searchDistanceBy?] at h
  rcases himproves with hk | ⟨b, hb, hlt, hf⟩
  · rw [hk] at h
    cases h
  · rw [hf] at h
    cases h
    exact ⟨hb.distance_le_total, Nat.le_of_lt_succ (hlt.trans_le (min_le_left _ _))⟩

/-- Without any time nothing is found. -/
theorem searchDistanceBy?_of_timeout_zero (h : bounds.timeout = some 0) :
    searchDistanceBy? clock A B bounds = none := by
  have hdeadline : bounds.deadline? clock = some (clock.now 0) := by
    rw [SearchBounds.deadline?, h]
    simp [Clock.after?, clock.now_le_last 0]
  have hpast : clock.isPast (bounds.deadline? clock) 0 = true := by
    rw [hdeadline]
    exact decide_eq_true (clock.monotone 0)
  have hprogress : (searchBy clock A B bounds).progress =
      ⟨min (bounds.upperBound.toNat + 1) Problem.maxSize, none⟩ := expandTimed_of_isPast hpast
  rw [searchDistanceBy?, hprogress]
  rfl

end Graph

end GraphCompare
