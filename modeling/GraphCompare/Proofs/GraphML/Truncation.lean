import Mathlib
import GraphCompare.Proofs.Markup.Nesting
import GraphCompare.Proofs.GraphML.Construction

/-!
# Documents that are cut off

The reader of markup compares end tags with the elements that are open, but at the end of a text it
does not ask whether any are. So a document that stops too early is not refused for it
(`readGraph_not_balanced`). What holds instead is `readGraph_open_ended`: the elements of a text
that is read as a graph are closed up to those that are open at its end, and the graph is the
beginning of the graph of every longer text that can be read.

For the second part, an event only adds to the records of a document (`Reading.extends_step`), so
what is read from a text extends what is read from its beginning (`Document.extends_of_append`). The
two agree on ids and ends alone: a key or an entry that stands behind the cut may still change the
attributes of what stands before it.
-/

namespace GraphCompare.GraphML

open Markup (Event Tag Balanced Open)

/-- One document has the records of another and maybe more behind them. -/
structure Document.Extends (e d : Document) : Prop where
  nodes : d.nodes <+: e.nodes
  edges : d.edges <+: e.edges

namespace Document.Extends

variable {d e f : Document}

theorem refl (d : Document) : d.Extends d := ⟨List.prefix_rfl, List.prefix_rfl⟩

theorem trans (h : f.Extends e) (k : e.Extends d) : f.Extends d :=
  ⟨k.nodes.trans h.nodes, k.edges.trans h.edges⟩

theorem addRecord (d : Document) (o : Owner) : (d.addRecord o).Extends d := by
  cases o with
  | none => exact refl d
  | node r => exact ⟨List.prefix_append _ _, List.prefix_rfl⟩
  | edge r => exact ⟨List.prefix_rfl, List.prefix_append _ _⟩

end Document.Extends

namespace Reading

variable {s t : Reading}

theorem extends_start {tag : Tag} (h : s.start tag = .ok t) : t.document.Extends s.document := by
  rw [start] at h
  split at h
  case h_1 =>
    obtain ⟨k, -, h⟩ := ok_of_bind h
    cases h
    exact ⟨List.prefix_rfl, List.prefix_rfl⟩
  case h_3 =>
    cases h
    exact ⟨List.prefix_rfl, List.prefix_rfl⟩
  case h_4 | h_5 | h_6 =>
    obtain ⟨r, -, h⟩ := ok_of_bind h
    cases h
    exact .refl _
  case h_2 | h_7 =>
    cases h
    exact .refl _

theorem extends_empty {tag : Tag} (h : s.empty tag = .ok t) : t.document.Extends s.document := by
  rw [empty] at h
  split at h
  case h_1 =>
    obtain ⟨k, -, h⟩ := ok_of_bind h
    cases h
    exact ⟨List.prefix_rfl, List.prefix_rfl⟩
  case h_2 =>
    cases h
    exact ⟨List.prefix_rfl, List.prefix_rfl⟩
  case h_3 =>
    obtain ⟨r, -, h⟩ := ok_of_bind h
    cases h
    exact Document.Extends.addRecord s.document (.node r)
  case h_4 =>
    obtain ⟨r, -, h⟩ := ok_of_bind h
    cases h
    exact Document.Extends.addRecord s.document (.edge r)
  case h_5 =>
    cases h
    exact .refl _

theorem extends_finishDefault (h : s.finishDefault = .ok t) :
    t.document.Extends s.document := by
  simp only [finishDefault] at h
  split at h
  case h_1 =>
    cases h
    exact .refl _
  case h_2 =>
    split at h
    case h_1 =>
      cases h
      exact .refl _
    case h_2 =>
      obtain ⟨v, -, h⟩ := ok_of_bind h
      cases h
      exact ⟨List.prefix_rfl, List.prefix_rfl⟩

theorem document_finishData (h : s.finishData = .ok t) : t.document = s.document := by
  rw [finishData] at h
  split at h
  case h_1 =>
    cases h
    rfl
  case h_2 =>
    simp only at h
    split at h
    case h_1 =>
      cases h
      rfl
    case h_2 =>
      obtain ⟨v, -, h⟩ := ok_of_bind h
      cases h
      rfl

theorem extends_finish {name : List Char} (h : s.finish name = .ok t) :
    t.document.Extends s.document := by
  rw [finish] at h
  split at h
  case h_2 => exact extends_finishDefault h
  case h_3 => exact document_finishData h ▸ .refl _
  case h_4 | h_5 =>
    cases h
    exact .addRecord _ _
  case h_1 | h_6 =>
    cases h
    exact .refl _

theorem document_step_text {raw : List Char} (h : s.step (.text raw) = .ok t) :
    t.document = s.document := by
  rw [step] at h
  split at h
  case isTrue =>
    obtain ⟨content, -, h⟩ := ok_of_bind h
    cases h
    rfl
  case isFalse =>
    cases h
    rfl

/-- No event takes a record away. -/
theorem extends_step {e : Event} (h : s.step e = .ok t) : t.document.Extends s.document := by
  cases e with
  | start tag => exact extends_start h
  | empty tag => exact extends_empty h
  | finish name => exact extends_finish h
  | text raw => exact document_step_text h ▸ .refl _
  | cdata content =>
    rw [step] at h
    cases h
    split <;> exact .refl _
  | aside =>
    cases h
    exact .refl _

/-- Nor does a sequence of events. -/
theorem extends_foldlM {list : List Event} (h : list.foldlM step s = .ok t) :
    t.document.Extends s.document := by
  induction list generalizing s with
  | nil =>
    cases h
    exact .refl _
  | cons e rest ih =>
    rw [List.foldlM_cons] at h
    obtain ⟨u, hu, h⟩ := ok_of_bind h
    exact (ih h).trans (extends_step hu)

end Reading

/-- A byte order mark is at the front, if there is any text. -/
theorem withoutMark_append {cs : List Char} (h : cs ≠ []) (more : List Char) :
    Markup.withoutMark (cs ++ more) = Markup.withoutMark cs ++ more := by
  cases cs with
  | nil => exact absurd rfl h
  | cons c rest =>
    by_cases hc : c = '\ufeff'
    · subst hc
      rfl
    · rw [List.cons_append, Markup.withoutMark, Markup.withoutMark] <;> simp [hc]

/-- What is put behind a document that can be read only adds records. -/
theorem Document.extends_of_append {text more : String} {d e : Document} (nonempty : text ≠ "")
    (h : Document.read text = .ok d) (k : Document.read (text ++ more) = .ok e) : e.Extends d := by
  obtain ⟨hfault, s, hs, rfl⟩ := read_eq_ok.1 h
  obtain ⟨-, t, ht, rfl⟩ := read_eq_ok.1 k
  have sound : (Markup.events [] (Markup.withoutMark text.toList)).2 = none := by
    simpa [Markup.read] using hfault
  obtain ⟨common, inside, behind, hcommon, happend⟩ := Markup.events_append sound more.toList
  have cut : (Markup.read (text ++ more)).1 = common ++ (Markup.events inside behind).1 := by
    rw [Markup.read, String.toList_append, withoutMark_append (by simpa using nonempty), happend]
  rw [cut, List.foldlM_append] at ht
  obtain ⟨u, hu, ht⟩ := ok_of_bind ht
  have same : s.document = u.document := by
    rcases hcommon with heq | ⟨raw, heq⟩
    · have whole : (Markup.read text).1 = common := heq
      rw [whole, hu] at hs
      cases hs
      rfl
    · have whole : (Markup.read text).1 = common ++ [.text raw] := heq
      rw [whole, List.foldlM_append, hu] at hs
      obtain ⟨v, hv, hs⟩ := ok_of_bind (x := u.step (.text raw)) hs
      cases hs
      exact Reading.document_step_text hv
  rw [same]
  exact Reading.extends_foldlM ht

/-- What a document lists at first is at the front of the graph. -/
theorem Document.Extends.toGraph {d e : Document} (h : e.Extends d) {g g' : Graph}
    (hg : d.toGraph = .ok g) (hg' : e.toGraph = .ok g') :
    g.nodes.map Node.id <+: g'.nodes.map Node.id ∧
      (g.edges.map fun e => (e.source, e.target)) <+:
        g'.edges.map fun e => (e.source, e.target) := by
  obtain ⟨-, nodes, edges⟩ := listed_of_toGraph hg
  obtain ⟨-, nodes', edges'⟩ := listed_of_toGraph hg'
  have ends : ∀ (x : NodeId × NodeId × Attributes) (id : EdgeId),
      ((⟨id, x.1, x.2.1, x.2.2⟩ : Edge).source, (⟨id, x.1, x.2.1, x.2.2⟩ : Edge).target) =
        (x.1, x.2.1) := fun _ _ => rfl
  rw [nodes, nodes', edges, edges', map_numbered ends, map_numbered ends]
  simp only [listedNodes, listedEdges, List.map_map, Function.comp_def]
  exact ⟨h.nodes.map _, h.edges.map _⟩

/-- **What is read from a document that may be cut off.** If a text is read as a graph, its markup
has no fault, and every element in it is closed up to those that are open where the text ends, at
which nobody looks. So the text may be the beginning of a longer document; then its graph is the
beginning of the graph of that document, node by node and edge by edge. -/
theorem readGraph_open_ended {text : String} {g : Graph} (h : readGraph text = .ok g) :
    (Markup.read text).2 = none ∧
      (∃ opened : Open, Balanced ((Markup.read text).1 ++ opened.map .finish) ∧
        (Balanced (Markup.read text).1 ↔ opened = [])) ∧
      ∀ more g', readGraph (text ++ more) = .ok g' →
        g.nodes.map Node.id <+: g'.nodes.map Node.id ∧
          (g.edges.map fun e => (e.source, e.target)) <+:
            g'.edges.map fun e => (e.source, e.target) := by
  obtain ⟨d, hd, hg⟩ := ok_of_bind h
  refine ⟨(Document.read_eq_ok.1 hd).1, Markup.exists_balanced_events _, fun more g' h' => ?_⟩
  obtain ⟨e, he, hg'⟩ := ok_of_bind h'
  have nonempty : text ≠ "" := by
    rintro rfl
    obtain ⟨-, s, hs, rfl⟩ := Document.read_eq_ok.1 hd
    have none : (Markup.read "").1 = [] := by
      simp [Markup.read, Markup.withoutMark, Markup.events]
    rw [none] at hs
    cases hs
    exact absurd (Document.listed_of_toGraph hg).1 (by decide)
  exact (Document.extends_of_append nonempty hd he).toGraph hg hg'

/-- A document of two nodes that stops behind the first one. -/
def halfWritten : String := "<graphml><graph><node id=\"a\"/>"

/-- The rest of that document. -/
def otherHalf : String := "<node id=\"b\"/></graph></graphml>"

theorem readGraph_halfWritten : ∃ g g', readGraph halfWritten = .ok g ∧
    readGraph (halfWritten ++ otherHalf) = .ok g' ∧
    g.nodes.map Node.id = ["a"] ∧ g'.nodes.map Node.id = ["a", "b"] ∧
    g.nodes.map Node.id <+: g'.nodes.map Node.id ∧
    ∃ opened : Open, Balanced ((Markup.read halfWritten).1 ++ opened.map .finish) := by
  have first : (readGraph halfWritten).toOption.map (·.nodes.map Node.id) = some ["a"] := by
    decide +kernel
  have whole : (readGraph (halfWritten ++ otherHalf)).toOption.map (·.nodes.map Node.id) =
      some ["a", "b"] := by
    decide +kernel
  obtain ⟨g, hg, first⟩ := ok_of_map_toOption first
  obtain ⟨g', hg', whole⟩ := ok_of_map_toOption whole
  obtain ⟨-, ⟨opened, balanced, -⟩, beginning⟩ := readGraph_open_ended hg
  exact ⟨g, g', hg, hg', first, whole, (beginning otherHalf g' hg').1, opened, balanced⟩

/-- A document need not be complete: two elements are open where this text ends, and there is a
graph. -/
theorem readGraph_not_balanced : ∃ g, readGraph halfWritten = .ok g ∧
    ¬ Balanced (Markup.read halfWritten).1 := by
  have first : (readGraph halfWritten).toOption.isSome := by decide +kernel
  cases hg : readGraph halfWritten with
  | error e =>
    rw [hg] at first
    cases first
  | ok g =>
    refine ⟨g, rfl, ?_⟩
    rw [Markup.balanced_iff]
    decide +kernel

end GraphCompare.GraphML
