import Mathlib
import GraphCompare.Proofs.Markup.Nesting

/-!
# The elements of a document

A balanced sequence of events is that of a forest of elements (`Balanced.exists_forest`): the first
piece, what is inside it, and the pieces behind it. There is one only (`Forest.events_injective`).

Who reads a document with one place for the element that is open has lost it when another such
element comes inside. What is left of the elements of a kind are those without another one inside
that is written with two tags, in the order of their ends (`Forest.kept`); elements with one tag
take no place, and may be kept or not. The others are lost, and every element is either kept or lost
(`Forest.perm_kept_lost`).
-/

namespace GraphCompare.Markup

/-- Pieces of a document one after the other, with what is inside the elements. -/
inductive Forest where
  | nil
  | empty (t : Tag) (rest : Forest)
  | text (raw : List Char) (rest : Forest)
  | cdata (content : List Char) (rest : Forest)
  | aside (rest : Forest)
  | element (t : Tag) (inside rest : Forest)

/-- An element with the tags of the document up to its own. -/
structure Element where
  before : List Tag
  tag : Tag
  inside : Forest

namespace Forest

/-- The events of a forest. -/
def events : Forest → List Event
  | nil => []
  | empty t rest => .empty t :: rest.events
  | text raw rest => .text raw :: rest.events
  | cdata content rest => .cdata content :: rest.events
  | aside rest => .aside :: rest.events
  | element t inside rest => .start t :: (inside.events ++ .finish t.name :: rest.events)

/-- The pieces of one forest and then those of another. -/
def append : Forest → Forest → Forest
  | nil, g => g
  | empty t rest, g => empty t (rest.append g)
  | text raw rest, g => text raw (rest.append g)
  | cdata content rest, g => cdata content (rest.append g)
  | aside rest, g => aside (rest.append g)
  | element t inside rest, g => element t inside (rest.append g)

/-- The tags of all elements, in the order of the document. -/
def tags : Forest → List Tag
  | nil => []
  | empty t rest => t :: rest.tags
  | text _ rest | cdata _ rest | aside rest => rest.tags
  | element t inside rest => t :: (inside.tags ++ rest.tags)

section

variable (p : Tag → Bool) (short : Bool)

/-- Whether there is an element of a kind that is written with two tags. -/
def holds : Forest → Bool
  | nil => false
  | empty _ rest | text _ rest | cdata _ rest | aside rest => rest.holds
  | element t inside rest => p t || inside.holds || rest.holds

/-- The elements of a kind that hold no other one, in the order of their ends. Elements with one tag
are among them if `short` says so. -/
def kept (before : List Tag) : Forest → List Element
  | nil => []
  | empty t rest => (if p t && short then [⟨before ++ [t], t, nil⟩] else []) ++
      rest.kept (before ++ [t])
  | text _ rest | cdata _ rest | aside rest => rest.kept before
  | element t inside rest => inside.kept (before ++ [t]) ++
      (if p t && !inside.holds p then [⟨before ++ [t], t, inside⟩] else []) ++
      rest.kept (before ++ t :: inside.tags)

/-- The tags of the other elements of the kind. -/
def lost : Forest → List Tag
  | nil => []
  | empty t rest => (if p t && !short then [t] else []) ++ rest.lost
  | text _ rest | cdata _ rest | aside rest => rest.lost
  | element t inside rest => (if p t && inside.holds p then [t] else []) ++ inside.lost ++ rest.lost

end

section

variable (f g : Forest) (p : Tag → Bool) (short : Bool)

theorem tags_append : (f.append g).tags = f.tags ++ g.tags := by
  induction f <;> simp_all [append, tags]

theorem holds_append : (f.append g).holds p = (f.holds p || g.holds p) := by
  induction f <;> simp_all [append, holds, Bool.or_assoc]

theorem kept_append (before : List Tag) : (f.append g).kept p short before =
    f.kept p short before ++ g.kept p short (before ++ f.tags) := by
  induction f generalizing before <;> simp_all [append, kept, tags]

/-- Every element of a kind is kept or lost. -/
theorem perm_kept_lost (before : List Tag) :
    ((f.kept p short before).map Element.tag ++ f.lost p short).Perm (f.tags.filter p) := by
  rw [List.perm_iff_count]
  intro x
  induction f generalizing before with
  | nil => rfl
  | text _ rest ih | cdata _ rest ih | aside rest ih => exact ih before
  | empty t rest ih =>
    have behind := ih (before ++ [t])
    simp only [kept, lost, tags, List.map_append, List.count_append, List.filter_cons] at behind ⊢
    cases p t <;> cases short <;> simp [List.count_cons] <;> omega
  | element t inside rest ihi ihr =>
    have within := ihi (before ++ [t])
    have behind := ihr (before ++ t :: inside.tags)
    simp only [kept, lost, tags, List.map_append, List.count_append, List.filter_cons,
      List.filter_append] at within behind ⊢
    cases p t <;> cases inside.holds p <;> simp [List.count_cons] <;> omega

end

/-- What may stand behind a forest: nothing, or the end tag of the element around it. -/
def Ends (list : List Event) : Prop := ∀ e ∈ list.head?, ∃ name, e = .finish name

/-- Where a forest ends is seen from what follows. -/
theorem eq_of_events_append {f g : Forest} {behind behind' : List Event} (hf : Ends behind)
    (hg : Ends behind') (h : f.events ++ behind = g.events ++ behind') :
    f = g ∧ behind = behind' := by
  have ended : ∀ {e list}, Ends (e :: list) → ∃ name, e = .finish name := fun h => h _ rfl
  induction f generalizing g behind behind' with
  | nil =>
    cases g <;> simp only [events, List.nil_append, List.cons_append, List.append_assoc] at h
    case nil => exact ⟨rfl, h⟩
    all_goals
      subst h
      obtain ⟨name, h⟩ := ended hf
      cases h
  | empty _ rest ih | text _ rest ih | cdata _ rest ih =>
    cases g <;> simp only [events, List.nil_append, List.cons_append, List.append_assoc,
      List.cons.injEq, Event.empty.injEq, Event.text.injEq, Event.cdata.injEq, reduceCtorEq,
      false_and] at h
    case nil =>
      subst h
      obtain ⟨name, h⟩ := ended hg
      cases h
    all_goals
      obtain ⟨rfl, h⟩ := h
      obtain ⟨rfl, rfl⟩ := ih hf hg h
      exact ⟨rfl, rfl⟩
  | aside rest ih =>
    cases g <;> simp only [events, List.nil_append, List.cons_append, List.append_assoc,
      List.cons.injEq, reduceCtorEq, false_and, true_and] at h
    case nil =>
      subst h
      obtain ⟨name, h⟩ := ended hg
      cases h
    case aside rest' =>
      obtain ⟨rfl, rfl⟩ := ih hf hg h
      exact ⟨rfl, rfl⟩
  | element t inside rest ihi ihr =>
    cases g <;> simp only [events, List.nil_append, List.cons_append, List.append_assoc,
      List.cons.injEq, Event.start.injEq, reduceCtorEq, false_and] at h
    case nil =>
      subst h
      obtain ⟨name, h⟩ := ended hg
      cases h
    case element t' inside' rest' =>
      obtain ⟨rfl, h⟩ := h
      obtain ⟨rfl, within⟩ := ihi (by simp [Ends]) (by simp [Ends]) h
      obtain ⟨rfl, rfl⟩ := ihr hf hg (List.cons.inj within).2
      exact ⟨rfl, rfl⟩

/-- A forest is known by its events. -/
theorem events_injective : Function.Injective events := by
  intro f g h
  have same : f.events ++ [] = g.events ++ [] := by rw [h]
  exact (eq_of_events_append (by simp [Ends]) (by simp [Ends]) same).1

end Forest

/-- A balanced sequence is that of a forest. -/
theorem Balanced.exists_forest {list : List Event} (h : Balanced list) :
    ∃ f : Forest, f.events = list := by
  induction h with
  | nil => exact ⟨.nil, rfl⟩
  | empty t _ ih =>
    obtain ⟨rest, rfl⟩ := ih
    exact ⟨.empty t rest, rfl⟩
  | text raw _ ih =>
    obtain ⟨rest, rfl⟩ := ih
    exact ⟨.text raw rest, rfl⟩
  | cdata content _ ih =>
    obtain ⟨rest, rfl⟩ := ih
    exact ⟨.cdata content rest, rfl⟩
  | aside _ ih =>
    obtain ⟨rest, rfl⟩ := ih
    exact ⟨.aside rest, rfl⟩
  | element t _ _ ihi ihr =>
    obtain ⟨inside, rfl⟩ := ihi
    obtain ⟨rest, rfl⟩ := ihr
    exact ⟨.element t inside rest, rfl⟩

end GraphCompare.Markup
