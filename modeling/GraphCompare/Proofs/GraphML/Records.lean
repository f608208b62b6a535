import Mathlib
import GraphCompare.Proofs.GraphML.Meaning

/-!
# The records of a document

The reader has one place for the record whose data are being collected, and one for the data
element that is open. A start tag takes the place, whatever is there, and the end tag leaves it
empty. So an element inside another one of its kind puts the outer one out of its place, and at its
own end the outer one is not there any more: it is lost (`Forest.lost`). Tags that close themselves
take no place. A record with one tag is complete at once; a data element with one tag says nothing.

`Run` says this for a forest between any two states of the reader, and `readGraph_holds` for a whole
document: one node or edge for each element that is kept, in the order of their ends, with the
attributes of the data inside it. These are all its own, as no record with two tags is inside an
element that is kept. What is lost is the outer one of two nodes, say (`readGraph_nodeInNode`).
-/

namespace GraphCompare.GraphML

open Markup (Event Tag Balanced Forest Element)

/-! ## Reading a forest -/

/-- What reading a forest does, with the tags in front of it. -/
structure Run (tags : List Tag) (f : Forest) (s t : Reading) : Prop where
  knows : t.Knows (tags ++ f.tags)
  records : ∃ owners, List.Forall₂ Makes (f.kept isRecord true tags) owners ∧
    t.document.nodes = s.document.nodes ++ owners.filterMap Owner.node? ∧
    t.document.edges = s.document.edges ++ owners.filterMap Owner.edge?
  owner : ∃ entries, List.Forall₂ Gives (f.kept isData false tags) entries ∧
    t.owner = if f.holds isRecord then .none else s.owner.insertAll entries
  data? : t.data? = if f.holds isData then none else s.data?
  text : f.holds isData = false → s.data? ≠ none → t.text = textFrom s.text f

namespace Run

variable {tags : List Tag} {f g : Forest} {s t u : Reading} {tag : Tag}

theorem nil (hs : s.Knows tags) : Run tags .nil s s where
  knows := by simpa [Forest.tags] using hs
  records := ⟨[], .nil, by simp, by simp⟩
  owner := ⟨[], .nil, rfl⟩
  data? := rfl
  text _ _ := rfl

theorem append (hf : Run tags f s t) (hg : Run (tags ++ f.tags) g t u) :
    Run tags (f.append g) s u where
  knows := by
    rw [Forest.tags_append, ← List.append_assoc]
    exact hg.knows
  records := by
    obtain ⟨owners, made, nodes, edges⟩ := hf.records
    obtain ⟨others, made', nodes', edges'⟩ := hg.records
    refine ⟨owners ++ others, ?_, ?_, ?_⟩
    · rw [Forest.kept_append]
      exact List.rel_append made made'
    · rw [nodes', nodes, List.filterMap_append, List.append_assoc]
    · rw [edges', edges, List.filterMap_append, List.append_assoc]
  owner := by
    obtain ⟨entries, given, owner⟩ := hf.owner
    obtain ⟨others, given', owner'⟩ := hg.owner
    refine ⟨entries ++ others, ?_, ?_⟩
    · rw [Forest.kept_append]
      exact List.rel_append given given'
    · rw [owner', owner, Forest.holds_append, Owner.insertAll_append]
      cases f.holds isRecord <;> cases g.holds isRecord <;> simp
  data? := by
    rw [hg.data?, hf.data?, Forest.holds_append]
    cases f.holds isData <;> cases g.holds isData <;> rfl
  text := by
    intro none some
    rw [Forest.holds_append, Bool.or_eq_false_iff] at none
    have open_ : t.data? ≠ .none := by
      rw [hf.data?, none.1]
      exact some
    rw [hg.text none.2 open_, hf.text none.1 some, textFrom_append]

/-- A piece without elements may only change the text that is being read. -/
theorem ofText (hs : s.Knows tags) (quiet : f.tags = [] ∧ (∀ p, f.holds p = false) ∧
      ∀ p short before, f.kept p short before = []) {read : List Char}
    (same : t = { s with text := read }) (text : s.data? ≠ none → read = textFrom s.text f) :
    Run tags f s t := by
  obtain ⟨untagged, empty, none⟩ := quiet
  subst same
  refine ⟨?_, ⟨[], ?_, ?_, ?_⟩, ⟨[], ?_, ?_⟩, ?_, fun _ => text⟩
  · rw [untagged, List.append_nil]
    exact hs
  · rw [none]
    exact .nil
  · simp
  · simp
  · rw [none]
    exact .nil
  · rw [empty]
    rfl
  · rw [empty]
    rfl

theorem ofRawText {raw : List Char} (hs : s.Knows tags) (h : s.step (.text raw) = .ok t) :
    Run tags (.text raw .nil) s t := by
  rw [Reading.step] at h
  split at h
  case isTrue =>
    obtain ⟨content, resolved, h⟩ := ok_of_bind h
    cases h
    refine ofText hs ⟨rfl, fun _ => rfl, fun _ _ _ => rfl⟩ rfl fun _ => ?_
    cases hraw : Markup.resolve raw with
    | error e =>
      rw [hraw] at resolved
      cases resolved
    | ok read =>
      rw [hraw] at resolved
      cases resolved
      simp [textFrom, hraw, Except.toOption]
  case isFalse unwanted =>
    cases h
    exact ofText hs ⟨rfl, fun _ => rfl, fun _ _ _ => rfl⟩ rfl fun some =>
      absurd (Reading.wantsText_of_data? some) unwanted

theorem ofCData {content : List Char} (hs : s.Knows tags)
    (h : s.step (.cdata content) = .ok t) : Run tags (.cdata content .nil) s t := by
  cases h
  split
  case isTrue => exact ofText hs ⟨rfl, fun _ => rfl, fun _ _ _ => rfl⟩ rfl fun _ => rfl
  case isFalse unwanted =>
    exact ofText hs ⟨rfl, fun _ => rfl, fun _ _ _ => rfl⟩ rfl fun some =>
      absurd (Reading.wantsText_of_data? some) unwanted

theorem ofAside (hs : s.Knows tags) : Run tags (.aside .nil) s s :=
  ofText hs ⟨rfl, fun _ => rfl, fun _ _ _ => rfl⟩ rfl fun _ => rfl

/-- An element with one tag may be a record, but takes no place. -/
theorem ofEmpty (hs : s.Knows tags) (h : s.empty tag = .ok t) :
    Run tags (.empty tag .nil) s t := by
  have known := hs.empty h
  have data : Forest.kept isData false tags (.empty tag .nil) = [] := by simp [Forest.kept]
  cases record : isRecord tag with
  | true =>
    obtain ⟨o, declares, rfl⟩ := Reading.empty_record record h
    refine ⟨known, ⟨[o], ?_, nodes_addRecord _ o, edges_addRecord _ o⟩, ⟨[], ?_, rfl⟩, rfl,
      fun _ _ => rfl⟩
    · rw [Forest.kept, record]
      exact .cons (declares.makes (e := ⟨tags ++ [tag], tag, .nil⟩) .nil) .nil
    · rw [data]
      exact .nil
  | false =>
    obtain ⟨alike, text⟩ := Reading.empty_plain record h
    refine ⟨known, ⟨[], ?_, ?_, ?_⟩, ⟨[], ?_, alike.owner⟩, alike.data?, fun _ _ => text⟩
    · rw [Forest.kept, record]
      exact .nil
    · rw [alike.nodes, List.filterMap_nil, List.append_nil]
    · rw [alike.edges, List.filterMap_nil, List.append_nil]
    · rw [data]
      exact .nil

section

variable {a b : Reading} {inside : Forest} (start : s.start tag = .ok a)
  (run : Run (tags ++ [tag]) inside a b) (finish : b.finish tag.name = .ok t)
include start run finish

/-- An element that is neither a record nor a value stands for what is inside it. -/
theorem ofPlain (record : isRecord tag = false) (data : isData tag = false) :
    Run tags (.element tag inside .nil) s t := by
  obtain ⟨before, text⟩ := Reading.start_plain record data start
  obtain ⟨behind, text'⟩ := Reading.finish_plain record data finish
  obtain ⟨owners, made, nodes, edges⟩ := run.records
  obtain ⟨entries, given, owner⟩ := run.owner
  refine ⟨?_, ⟨owners, ?_, ?_, ?_⟩, ⟨entries, ?_, ?_⟩, ?_, ?_⟩
  · simpa [Forest.tags] using run.knows.finish finish
  · simpa [Forest.kept, record] using made
  · rw [behind.nodes, nodes, before.nodes]
  · rw [behind.edges, edges, before.edges]
  · simpa [Forest.kept, data] using given
  · rw [behind.owner, owner, before.owner]
    simp [Forest.holds, record]
  · rw [behind.data?, run.data?, before.data?]
    simp [Forest.holds, data]
  · intro none some
    have none' : inside.holds isData = false := by simpa [Forest.holds, data] using none
    rw [text', run.text none' (before.data?.symm ▸ some), text]
    rfl

/-- A record takes the place of the one around it and leaves it empty. So at its end it is found
there only if no other record has been inside. -/
theorem ofRecord (record : isRecord tag) : Run tags (.element tag inside .nil) s t := by
  have data := isData_of_isRecord record
  have known := run.knows.finish finish
  obtain ⟨o, declares, rfl⟩ := Reading.start_record record start
  obtain rfl := Reading.finish_record record finish
  obtain ⟨owners, made, nodes, edges⟩ := run.records
  obtain ⟨entries, given, owner⟩ := run.owner
  have own : ∃ new, List.Forall₂ Makes
      (if isRecord tag && !inside.holds isRecord then [⟨tags ++ [tag], tag, inside⟩] else []) new ∧
        (b.document.addRecord b.owner).nodes = b.document.nodes ++ new.filterMap Owner.node? ∧
        (b.document.addRecord b.owner).edges = b.document.edges ++ new.filterMap Owner.edge? := by
    cases holds : inside.holds isRecord with
    | true =>
      rw [holds] at owner
      refine ⟨[], ?_, ?_, ?_⟩
      · rw [record]
        exact .nil
      · rw [owner]
        exact (List.append_nil _).symm
      · rw [owner]
        exact (List.append_nil _).symm
    | false =>
      rw [holds] at owner
      refine ⟨[b.owner], ?_, nodes_addRecord _ _, edges_addRecord _ _⟩
      rw [record, owner]
      exact .cons (declares.makes (e := ⟨tags ++ [tag], tag, inside⟩) given) .nil
  obtain ⟨new, made', nodes', edges'⟩ := own
  refine ⟨?_, ⟨owners ++ new, ?_, ?_, ?_⟩, ⟨entries, ?_, ?_⟩, ?_, ?_⟩
  · simpa [Forest.tags] using known
  · simpa [Forest.kept] using List.rel_append made made'
  · rw [nodes', nodes, List.filterMap_append, List.append_assoc]
  · rw [edges', edges, List.filterMap_append, List.append_assoc]
  · simpa [Forest.kept, data] using given
  · simp [Forest.holds, record]
  · simpa [Forest.holds, data] using run.data?
  · intro none some
    have none' : inside.holds isData = false := by simpa [Forest.holds, data] using none
    rw [run.text none' some, textFrom, textFrom, if_neg]
    intro role
    simp [isRecord, role, Role.isRecord] at record

/-- So does a data element. -/
theorem ofData (data : isData tag) : Run tags (.element tag inside .nil) s t := by
  have record : isRecord tag = false := by
    by_contra h
    rw [isData_of_isRecord (by simpa using h)] at data
    cases data
  have known := run.knows.finish finish
  obtain ⟨id, hid, rfl⟩ := Reading.start_data data start
  have finish := Reading.finish_data data finish
  obtain ⟨owners, made, nodes, edges⟩ := run.records
  obtain ⟨entries, given, owner⟩ := run.owner
  have own : ∃ new, List.Forall₂ Gives
      (if isData tag && !inside.holds isData then [⟨tags ++ [tag], tag, inside⟩] else []) new ∧
        t = { b with data? := none, owner := b.owner.insertAll new } := by
    rw [Reading.finishData_eq, run.data?] at finish
    cases holds : inside.holds isData with
    | true =>
      rw [holds] at finish
      have same : b = t := Except.ok.inj finish
      subst same
      refine ⟨[], ?_, ?_⟩
      · rw [data]
        exact .nil
      · have none : b.data? = none := by rw [run.data?, holds]; rfl
        exact congrArg (fun x => { b with data? := x }) none
    | false =>
      rw [holds] at finish
      obtain ⟨x, hx, finish⟩ := ok_of_bind finish
      cases finish
      refine ⟨[x], ?_, rfl⟩
      rw [run.knows, run.text holds nofun] at hx
      rw [data]
      exact .cons ⟨id, hid, hx⟩ .nil
  obtain ⟨new, given', rfl⟩ := own
  refine ⟨?_, ⟨owners, ?_, nodes, edges⟩, ⟨entries ++ new, ?_, ?_⟩, ?_, ?_⟩
  · simpa [Forest.tags] using known
  · simpa [Forest.kept, record] using made
  · simpa [Forest.kept] using List.rel_append given given'
  · simp only [owner, Forest.holds, record, Owner.insertAll_append]
    cases inside.holds isRecord <;> simp
  · simp [Forest.holds, data]
  · intro none
    simp [Forest.holds, data] at none

end

end Run

/-- The run of a forest. -/
theorem run_of_foldlM {tags : List Tag} {f : Forest} {s t : Reading} (hs : s.Knows tags)
    (h : f.events.foldlM Reading.step s = .ok t) : Run tags f s t := by
  induction f generalizing tags s t with
  | nil =>
    cases h
    exact .nil hs
  | empty tag rest ih =>
    obtain ⟨u, hu, h⟩ := ok_of_bind h
    have first := Run.ofEmpty hs hu
    exact first.append (ih first.knows h)
  | text raw rest ih =>
    obtain ⟨u, hu, h⟩ := ok_of_bind h
    have first := Run.ofRawText hs hu
    exact first.append (ih first.knows h)
  | cdata content rest ih =>
    obtain ⟨u, hu, h⟩ := ok_of_bind h
    have first := Run.ofCData hs hu
    exact first.append (ih first.knows h)
  | aside rest ih =>
    obtain ⟨u, hu, h⟩ := ok_of_bind h
    cases hu
    have first := Run.ofAside hs
    exact first.append (ih first.knows h)
  | element tag inside rest ihi ihr =>
    obtain ⟨a, start, h⟩ := ok_of_bind h
    rw [List.foldlM_append] at h
    obtain ⟨b, hb, h⟩ := ok_of_bind h
    obtain ⟨u, finish, h⟩ := ok_of_bind h
    have within := ihi (hs.start start) hb
    have first : Run tags (.element tag inside .nil) s u := by
      by_cases record : isRecord tag
      · exact Run.ofRecord start within finish record
      by_cases data : isData tag
      · exact Run.ofData start within finish data
      · exact Run.ofPlain start within finish (by simpa using record) (by simpa using data)
    exact first.append (ihr first.knows h)

/-! ## The graph of a document -/

/-- The elements of a role that are kept as records. -/
def recordsOf (f : Forest) (role : Role) : List Element :=
  (f.kept isRecord true []).filter fun e => Role.ofName e.tag.name = role

/-- A graph holds the records of a document: its nodes and edges are those of the elements that are
kept, with what they declare and with the attributes that their data say, or by default. The other
elements with records, and the other data elements inside those that are kept, are lost. -/
structure Holds (f : Forest) (d : Document) (g : Graph) : Prop where
  nodes : List.Forall₂ (fun e n => required e.tag "id" = .ok n.id.toList ∧
    ∃ a, Collects e a ∧ n.attributes = Document.withDefaults (d.defaults .node) a)
      (recordsOf f .node) g.nodes
  edges : List.Forall₂ (fun e x => (required e.tag "source" = .ok x.source.toList ∧
      required e.tag "target" = .ok x.target.toList) ∧
    ∃ a, Collects e a ∧ x.attributes = Document.withDefaults (d.defaults .edge) a)
      (recordsOf f .edge) g.edges
  records : ((f.kept isRecord true []).map Element.tag ++ f.lost isRecord true).Perm
    (f.tags.filter isRecord)
  data : ∀ e ∈ f.kept isRecord true [],
    ((dataOf e).map Element.tag ++ e.inside.lost isData false).Perm (e.inside.tags.filter isData)

/-- Related lists stay related where both sides leave out the same. -/
theorem forall₂_filter_filterMap {α β γ : Type} {R : α → β → Prop} {P : α → γ → Prop}
    {p : α → Bool} {pick : β → Option γ} {xs : List α} {ys : List β} (h : List.Forall₂ R xs ys)
    (taken : ∀ x y z, R x y → pick y = some z → p x ∧ P x z)
    (left : ∀ x y, R x y → pick y = none → p x = false) :
    List.Forall₂ P (xs.filter p) (ys.filterMap pick) := by
  induction h with
  | nil => exact .nil
  | @cons x y xs ys related _ ih =>
    cases hpick : pick y with
    | none =>
      rw [List.filter_cons_of_neg (by simp [left x y related hpick]),
        List.filterMap_cons_none hpick]
      exact ih
    | some z =>
      obtain ⟨hp, related⟩ := taken x y z related hpick
      rw [List.filter_cons_of_pos hp, List.filterMap_cons_some hpick]
      exact .cons related ih

/-- The nodes among the records. -/
theorem forall₂_nodes {elements : List Element} {owners : List Owner}
    (h : List.Forall₂ Makes elements owners) :
    List.Forall₂ (fun e r => required e.tag "id" = .ok r.id.toList ∧ Collects e r.attributes)
      (elements.filter fun e => Role.ofName e.tag.name = .node)
      (owners.filterMap Owner.node?) := by
  refine forall₂_filter_filterMap h ?_ ?_
  · rintro e (_ | r | r) x made pick <;> cases pick
    exact ⟨by simp [made.1], made.2⟩
  · rintro e (_ | r | r) made pick
    · cases made
    · cases pick
    · simp [made.1]

/-- The edges among the records. -/
theorem forall₂_edges {elements : List Element} {owners : List Owner}
    (h : List.Forall₂ Makes elements owners) :
    List.Forall₂ (fun e r => (required e.tag "source" = .ok r.source.toList ∧
        required e.tag "target" = .ok r.target.toList) ∧ Collects e r.attributes)
      (elements.filter fun e => Role.ofName e.tag.name = .edge)
      (owners.filterMap Owner.edge?) := by
  refine forall₂_filter_filterMap h ?_ ?_
  · rintro e (_ | r | r) x made pick <;> cases pick
    obtain ⟨role, source, target, collects⟩ := made
    exact ⟨by simp [role], ⟨source, target⟩, collects⟩
  · rintro e (_ | r | r) made pick
    · cases made
    · simp [made.1]
    · cases pick

/-- **What is kept of a document.** If a balanced text is read as a graph, the graph has one node
for each node element and one edge for each edge element, with the id or the ends that the element
declares, and with the attributes that the data inside it say; all of it but for the elements that
contain a node or an edge written with two tags. -/
theorem readGraph_holds {text : String} {g : Graph} (balanced : Balanced (Markup.read text).1)
    (h : readGraph text = .ok g) : ∃ (f : Forest) (d : Document),
      (∀ f' : Forest, f'.events = (Markup.read text).1 ↔ f' = f) ∧
        Document.read text = .ok d ∧ Holds f d g := by
  obtain ⟨f, hf⟩ := balanced.exists_forest
  obtain ⟨d, hd, hg⟩ := ok_of_bind h
  obtain ⟨-, s, hs, rfl⟩ := Document.read_eq_ok.1 hd
  rw [← hf] at hs
  have run : Run [] f .initial s := run_of_foldlM (fun _ => rfl) hs
  obtain ⟨owners, made, nodes, edges⟩ := run.records
  obtain ⟨-, listedNodes, listedEdges⟩ := Document.listed_of_toGraph hg
  have unique : ∀ f' : Forest, f'.events = (Markup.read text).1 ↔ f' = f := by
    intro f'
    rw [← hf]
    exact Forest.events_injective.eq_iff
  refine ⟨f, s.document, unique, hd, ?_, ?_, ?_, ?_⟩
  · rw [listedNodes, Document.listedNodes, nodes, List.forall₂_map_right_iff]
    exact (forall₂_nodes made).imp fun e r declared => ⟨declared.1, _, declared.2, rfl⟩
  · have ends : (g.edges.map fun x => (x.source, x.target, x.attributes)) =
        s.document.listedEdges := by
      rw [listedEdges, map_numbered (k := id) fun _ _ => rfl, List.map_id]
    have parts : List.Forall₂ (fun e (x : NodeId × NodeId × Attributes) =>
        (required e.tag "source" = .ok x.1.toList ∧ required e.tag "target" = .ok x.2.1.toList) ∧
          ∃ a, Collects e a ∧
            x.2.2 = Document.withDefaults (s.document.defaults .edge) a)
        (recordsOf f .edge) (g.edges.map fun x => (x.source, x.target, x.attributes)) := by
      rw [ends, Document.listedEdges, edges, List.forall₂_map_right_iff]
      exact (forall₂_edges made).imp fun e r declared => ⟨declared.1, _, declared.2, rfl⟩
    exact List.forall₂_map_right_iff.1 parts
  · exact f.perm_kept_lost isRecord true []
  · exact fun e _ => e.inside.perm_kept_lost isData false e.before

/-- A document with a node that contains a graph, whose node has one tag. -/
def graphInNode : String :=
  "<graphml><graph><node id=\"a\"><data key=\"k\">x</data><graph><node id=\"b\"/></graph>" ++
    "</node><edge source=\"a\" target=\"b\"/></graph></graphml>"

theorem readGraph_graphInNode : ∃ g f d, readGraph graphInNode = .ok g ∧
    f.events = (Markup.read graphInNode).1 ∧ Document.read graphInNode = .ok d ∧ Holds f d g ∧
    g.nodes.map Node.id = ["b", "a"] := by
  have ids : (readGraph graphInNode).toOption.map (·.nodes.map Node.id) = some ["b", "a"] := by
    decide +kernel
  have balanced : Balanced (Markup.read graphInNode).1 := by
    rw [Markup.balanced_iff]
    decide +kernel
  obtain ⟨g, hg, ids⟩ := ok_of_map_toOption ids
  obtain ⟨f, d, hf, hd, holds⟩ := readGraph_holds balanced hg
  exact ⟨g, f, d, hg, (hf f).2 rfl, hd, holds, ids⟩

/-- The same document but for the second node, which has two tags. -/
def nodeInNode : String :=
  "<graphml><graph><node id=\"a\"><graph><node id=\"b\"></node></graph></node></graph></graphml>"

/-- Whether an event is the tag of a node. -/
def opensNode : Event → Bool
  | .start t | .empty t => Role.ofName t.name = .node
  | _ => false

/-- The outer one of two nodes is lost, in a balanced document that is read as a graph. -/
theorem readGraph_nodeInNode : ∃ g, readGraph nodeInNode = .ok g ∧
    Balanced (Markup.read nodeInNode).1 ∧ (Markup.read nodeInNode).1.countP opensNode = 2 ∧
    g.nodes.map Node.id = ["b"] := by
  have ids : (readGraph nodeInNode).toOption.map (·.nodes.map Node.id) = some ["b"] := by
    decide +kernel
  obtain ⟨g, hg, ids⟩ := ok_of_map_toOption ids
  refine ⟨g, hg, ?_, ?_, ids⟩
  · rw [Markup.balanced_iff]
    decide +kernel
  · decide +kernel

end GraphCompare.GraphML
