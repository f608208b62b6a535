import Mathlib
import GraphCompare.GraphML.Reader
import GraphCompare.Proofs.GraphML.Outline

/-!
# Reading written elements

Reading on over a piece of text leads from one state of the reader to another (`Takes`), whatever
follows the piece. Pieces one after the other compose (`Takes.append`), and an element is taken by
its start, what is inside, and its end (`Layout.takes_element`, `Layout.takes_textElement`). White
space between the tags is passed over where no value is being read, and the text of a value comes
back as it was before it was escaped.

The attributes of a written tag are found with their values (`optional_tagOf`, `required_tagOf`).
-/

namespace GraphCompare.GraphML

open Markup (Event Tag Stands Plain tagOf textEvents escape openTag emptyTag closeTag)

/-- Events are taken one part after the other. -/
theorem foldlM_append_of_ok {s t : Reading} {list : List Event}
    (h : list.foldlM Reading.step s = .ok t) (others : List Event) :
    (list ++ others).foldlM Reading.step s = others.foldlM Reading.step t := by
  rw [List.foldlM_append, h]
  rfl

/-- Reading on over a piece of text leads from one state to another. -/
def Takes (cs : List Char) (s t : Reading) : Prop :=
  ∃ list, Stands cs list ∧ list.foldlM Reading.step s = .ok t

/-! ## Elements -/

namespace Takes

variable {cs cs' : List Char} {s t u : Reading}

theorem nil (s : Reading) : Takes [] s s := ⟨[], .nil, rfl⟩

theorem append (h : Takes cs s t) (h' : Takes cs' t u) : Takes (cs ++ cs') s u := by
  obtain ⟨list, stands, hlist⟩ := h
  obtain ⟨list', stands', hlist'⟩ := h'
  exact ⟨list ++ list', stands.append stands', (foldlM_append_of_ok hlist list').trans hlist'⟩

end Takes

/-- Text that is not part of a value is passed over. -/
theorem foldlM_textEvents_quiet {s : Reading} (h : s.wantsText = false) (text : List Char) :
    (textEvents text).foldlM Reading.step s = .ok s := by
  rw [textEvents]
  split
  · rfl
  · rw [List.foldlM_cons, Reading.step, h]
    rfl

/-- An escaped text inside a value is taken as it was. -/
theorem foldlM_textEvents_escape {s : Reading} (h : s.wantsText) (text : List Char) :
    (textEvents (escape text)).foldlM Reading.step s = .ok { s with text := s.text ++ text } := by
  have resolved := Markup.resolve_escape text
  rw [textEvents]
  split
  case isTrue hnil =>
    have none : text = [] := by
      rw [hnil, Markup.resolve, Markup.resolveFrom] at resolved
      cases resolved
      rfl
    rw [none, List.append_nil]
    rfl
  case isFalse =>
    rw [List.foldlM_cons, Reading.step, if_pos h, resolved]
    rfl

namespace Layout

variable (layout : Layout) {depth : ℕ} {name : String} {attributes : List (String × List Char)}
  {s s₁ s₂ s₃ t : Reading}

theorem notMem_gap (depth : ℕ) : '<' ∉ layout.gap depth := by
  intro hmem
  cases layout.blank depth '<' hmem

section

variable (hname : Plain name.toList) (hattributes : ∀ a ∈ attributes, Plain a.1.toList)
  (quiet : s.wantsText = false)
include hname hattributes quiet

/-- Two tags are read with what is between them. -/
theorem takes_tags {inside text : List Char}
    (start : s.start (tagOf name.toList attributes) = .ok s₁) (h : Takes inside s₁ s₂)
    (ht : '<' ∉ text) (read : (textEvents text).foldlM Reading.step s₂ = .ok s₃)
    (finish : s₃.finish name.toList = .ok t) :
    Takes (layout.gap depth ++
      (openTag name.toList attributes ++ inside ++ text ++ closeTag name.toList)) s t := by
  obtain ⟨list, stands, hlist⟩ := h
  have front := foldlM_textEvents_quiet quiet (layout.gap depth)
  have first : [Event.start (tagOf name.toList attributes)].foldlM Reading.step s = .ok s₁ := by
    rw [List.foldlM_cons, Reading.step, start]
    rfl
  have last : [Event.finish name.toList].foldlM Reading.step s₃ = .ok t := by
    rw [List.foldlM_cons, Reading.step, finish]
    rfl
  refine ⟨_, Stands.after_text (layout.notMem_gap depth)
    (stands.element hname hattributes ht), ?_⟩
  rw [foldlM_append_of_ok front, List.append_assoc, List.cons_append, ← List.singleton_append,
    foldlM_append_of_ok first, foldlM_append_of_ok hlist, foldlM_append_of_ok read, last]

/-- An element is read by its start, what is inside, and its end; or else by its one tag. -/
theorem takes_element {inside : List Char}
    (start : s.start (tagOf name.toList attributes) = .ok s₁) (h : Takes inside s₁ s₂)
    (quiet' : s₂.wantsText = false) (finish : s₂.finish name.toList = .ok t)
    (short : inside = [] → s.empty (tagOf name.toList attributes) = .ok t) :
    Takes (layout.element depth name attributes inside) s t := by
  rw [element]
  split
  case isTrue hshort =>
    refine ⟨_, Stands.after_text (layout.notMem_gap depth) (.emptyTag hname hattributes), ?_⟩
    rw [foldlM_append_of_ok (foldlM_textEvents_quiet quiet (layout.gap depth)), List.foldlM_cons,
      Reading.step, short hshort.2]
    rfl
  case isFalse =>
    exact layout.takes_tags hname hattributes quiet start h (layout.notMem_gap depth)
      (foldlM_textEvents_quiet quiet' _) finish

/-- An element with a text inside is read by its start, the text, and its end. -/
theorem takes_textElement {text : List Char}
    (start : s.start (tagOf name.toList attributes) = .ok s₁) (wants : s₁.wantsText)
    (fresh : s₁.text = []) (finish : { s₁ with text := text }.finish name.toList = .ok t) :
    Takes (layout.textElement depth name attributes text) s t := by
  have read := foldlM_textEvents_escape wants text
  rw [fresh, List.nil_append] at read
  have whole : Takes (layout.gap depth ++ _) s t := layout.takes_tags hname hattributes quiet
    start (.nil s₁) (Markup.notMem_escape (.inl rfl) text) read finish
  rw [List.append_nil] at whole
  exact whole

end

theorem element_ne_nil (depth : ℕ) (name : String) (attributes : List (String × List Char))
    (inside : List Char) : layout.element depth name attributes inside ≠ [] := by
  intro h
  have tags := (List.append_eq_nil_iff.1 h).2
  split at tags <;> cases tags

theorem textElement_ne_nil (depth : ℕ) (name : String) (attributes : List (String × List Char))
    (text : List Char) : layout.textElement depth name attributes text ≠ [] := by
  intro h
  cases (List.append_eq_nil_iff.1 h).2

end Layout

/-! ## Attributes of tags -/

/-- The names of the attributes are plain if they are among plain names. -/
theorem plain_of_names {attributes : List (String × List Char)} (names : List String)
    (h : attributes.map Prod.fst = names) (plain : ∀ x ∈ names, Plain x.toList) :
    ∀ a ∈ attributes, Plain a.1.toList :=
  fun a ha => plain a.1 (h ▸ List.mem_map_of_mem ha)

section

variable {name : List Char} {attributes : List (String × List Char)}
  (plain : ∀ a ∈ attributes, Plain a.1.toList) (nodup : (attributes.map Prod.fst).Nodup)
include plain nodup

theorem optional_tagOf (x : String) :
    optional (tagOf name attributes) x = .ok (attributes.lookup x) := by
  rw [optional, Markup.raw?_tagOf plain nodup]
  cases attributes.lookup x with
  | none => rfl
  | some value =>
    simp only [Option.map_some, Markup.resolve_escape]
    rfl

theorem required_tagOf {x : String} {value : List Char}
    (h : attributes.lookup x = some value) :
    required (tagOf name attributes) x = .ok value := by
  rw [required, optional_tagOf plain nodup, h]
  rfl

end

end GraphCompare.GraphML
