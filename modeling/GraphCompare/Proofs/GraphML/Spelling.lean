import Mathlib
import GraphCompare.Proofs.GraphML.SelfClosing
import GraphCompare.Proofs.Markup.Pieces

/-!
# The spelling of values

The text of a data or a default element can be spelt in many ways: with references, in CDATA
sections, and with comments and instructions in between. The reader gathers it piece by piece in one
place, which is emptied at each start tag. `Reading.take` says what such an element does once its
text is known, and looks at no other text. `readGraph_pieces` says that this is what the reader does
for any pieces, in any place of any document.
-/

namespace GraphCompare

namespace Markup

/-- An element between its start tag and its end tag. -/
def element (content inside : List Char) : List Char :=
  '<' :: (content ++ '>' :: (inside ++ closeTag (Tag.ofContent content).name))

/-- The events of an element without elements inside. -/
theorem TagContent.stands_element {content inside : List Char} {list : List Event}
    (h : TagContent content) (between : Between inside list) : Stands (element content inside)
      (.start (.ofContent content) :: (list ++ [.finish (Tag.ofContent content).name])) := by
  intro opened rest
  have begins := h.begins []
  rw [List.append_nil] at begins
  have start := markup_of_begins begins h.whole opened
    (inside ++ (closeTag (Tag.ofContent content).name ++ rest))
  rw [ofTag, if_neg h.last] at start
  have finish := markup_closeTag h.name isBlank_of_mem_name opened rest
  have text : element content inside ++ rest =
      '<' :: (content ++ '>' :: (inside ++ (closeTag (Tag.ofContent content).name ++ rest))) := by
    simp [element]
  have closing : events ((Tag.ofContent content).name :: opened)
      (inside ++ (closeTag (Tag.ofContent content).name ++ rest)) =
        (list ++ .finish (Tag.ofContent content).name :: (events opened rest).1,
          (events opened rest).2) := by
    rw [closeTag, List.append_assoc, List.singleton_append, List.cons_append, between,
      events_tag finish]
  rw [text, events_tag start, closing]
  simp

end Markup

namespace GraphML

open Markup (Event Tag Piece Spells TagContent element escape openBehind)

namespace Reading

/-- What a data or a default element does that has a text: a value for the record that is open, or
the default of the key that is open. -/
def take (s : Reading) (t : Tag) (text : List Char) : Except ReadError Reading :=
  match Role.ofName t.name with
  | .data => do
    let id := String.ofList (← required t "key")
    let (name, v) ← entry (s.document.meaning? id) id text
    return { s with data? := none, owner := s.owner.insert name v, text := text }
  | .default => { s with text := text }.finishDefault
  | _ => return s

/-- Events that spell a text add it to what has been gathered. -/
theorem foldlM_of_spells {list : List Event} {text : List Char} (h : Spells list text)
    {s : Reading} (wants : s.wantsText) :
    list.foldlM step s = .ok { s with text := s.text ++ text } := by
  induction h generalizing s with
  | nil =>
    rw [List.append_nil]
    rfl
  | @text raw piece _ more resolved _ ih =>
    have taken : s.step (.text raw) = .ok { s with text := s.text ++ piece } := by
      rw [step, if_pos wants, resolved]
      rfl
    rw [List.foldlM_cons, taken, ← List.append_assoc]
    exact ih wants
  | @cdata piece _ more _ ih =>
    have taken : s.step (.cdata piece) = .ok { s with text := s.text ++ piece } := by
      rw [step, if_pos wants]
      rfl
    rw [List.foldlM_cons, taken, ← List.append_assoc]
    exact ih wants
  | aside _ ih =>
    rw [List.foldlM_cons]
    exact ih wants

/-- What is gathered between two tags is there at the end tag. -/
theorem foldlM_between {s u : Reading} {t : Tag} (start : s.start t = .ok u) (wants : u.wantsText)
    {list : List Event} {text : List Char} (h : Spells list text) :
    (.start t :: (list ++ [.finish t.name])).foldlM step s =
      { u with text := u.text ++ text }.finish t.name := by
  have gathered : (list ++ [Event.finish t.name]).foldlM step u =
      [Event.finish t.name].foldlM step { u with text := u.text ++ text } := by
    rw [List.foldlM_append, foldlM_of_spells h wants]
    rfl
  rw [List.foldlM_cons, step, start]
  exact gathered.trans (bind_pure _)

/-- A data or a default element takes the text that is spelt inside it and no other. -/
theorem foldlM_element {t : Tag} (valued : Role.ofName t.name ∈ [.default, .data])
    {list : List Event} {text : List Char} (h : Spells list text) (s : Reading)
    (other : List Char) :
    (.start t :: (list ++ [.finish t.name])).foldlM step { s with text := other } =
      s.take t text := by
  rcases List.mem_pair.1 valued with role | role
  case inl =>
    have start : { s with text := other }.start t =
        .ok { s with inDefault := true, text := [] } := by
      rw [start_eq, role]
      rfl
    rw [foldlM_between start rfl h, finish_eq, take, role]
    rfl
  case inr =>
    cases key : required t "key" with
    | error e =>
      have start : { s with text := other }.start t = .error e := by
        rw [start_eq, role, key]
        rfl
      rw [List.foldlM_cons, step, start, take, role, key]
      rfl
    | ok id =>
      have start : { s with text := other }.start t =
          .ok { s with data? := some (String.ofList id), text := [] } := by
        rw [start_eq, role, key]
        rfl
      have wants : { s with data? := some (String.ofList id), text := [] }.wantsText :=
        Bool.or_true _
      rw [foldlM_between start wants h, finish_eq, take, role, key]
      exact finishData_eq _

end Reading

/-- **The spelling of a value does not matter.** In a document that is in order up to some place,
let there be a data or a default element in this place whose text is written in pieces, with
references or verbatim, and with comments and instructions between them. Then the document reads
like the one with the whole text escaped: the same graph comes of it, or the same error but for its
position. Between the events before and behind it the element takes the text of its pieces and
no other, whatever has been gathered before. -/
theorem readGraph_pieces {front : String} {content : List Char}
    (sound : (Markup.read front).2 = none) (tag : TagContent content)
    (valued : Role.ofName (Tag.ofContent content).name ∈ [.default, .data])
    (pieces : List Piece) (behind : String) :
    let text := pieces.flatMap Piece.text
    let document (inside : List Char) :=
      front ++ String.ofList (element content inside) ++ behind
    (readGraph (document (pieces.flatMap Piece.written))).mapError ReadError.unplaced =
        (readGraph (document (escape text))).mapError ReadError.unplaced ∧
      ∃ list, (Markup.read (document (pieces.flatMap Piece.written))).1 =
          (Markup.read front).1 ++ (list ++ (Markup.events (openBehind front) behind.toList).1) ∧
        ∀ (s : Reading) (other : List Char),
          list.foldlM Reading.step { s with text := other } = s.take (.ofContent content) text := by
  intro text document
  obtain ⟨list, spells, between⟩ :=
    Markup.exists_spells pieces List.not_mem_nil Markup.resolve_nil
  have stands := tag.stands_element between
  have escaped := tag.stands_element
    (Markup.between_textEvents (Markup.notMem_escape (.inl rfl) text))
  have taken := Reading.foldlM_element valued spells
  refine ⟨readGraph_exchange sound stands escaped fun s _ => ?_, _,
    (read_in_place sound stands behind).1, taken⟩
  have same := Reading.foldlM_element valued
    (Markup.spells_textEvents (Markup.resolve_escape text)) s s.text
  exact (taken s s.text).trans same.symm

/-- The number 42 in four pieces: a reference to its first digit, a comment, a section with its
second digit, and an instruction. -/
def pieces42 : List Piece :=
  [.characters "&#52;".toList "4".toList (by decide) (by decide +kernel),
    .comment " then ".toList (by decide), .cdata "2".toList (by decide),
    .instruction "end".toList (by decide)]

/-- A document up to the place for a value of a node that has a number. -/
def beforeLine : String :=
  "<graphml><key id=\"k\" for=\"node\" attr.name=\"line\" attr.type=\"int\"/><graph>" ++
    "<node id=\"a\">"

theorem readGraph_pieces42 :
    let text (inside : List Char) := beforeLine ++
      String.ofList (element "data key=\"k\"".toList inside) ++ "</node></graph></graphml>"
    let read (inside : List Char) := (readGraph (text inside)).mapError ReadError.unplaced
    read (pieces42.flatMap Piece.written) = read (escape "42".toList) ∧
      ((readGraph (text (pieces42.flatMap Piece.written))).toOption.map fun g =>
        g.nodes.map fun n => (n.attributes.get? "line").map Value.text) = some [some "42"] := by
  intro text read
  have sound : (Markup.read beforeLine).2 = none := by decide +kernel
  have tag : TagContent "data key=\"k\"".toList :=
    ⟨by decide, by decide, by decide, by decide, by decide⟩
  have valued : Role.ofName (Tag.ofContent "data key=\"k\"".toList).name ∈ [.default, .data] := by
    decide
  exact ⟨(readGraph_pieces sound tag valued pieces42 _).1, by decide +kernel⟩

end GraphML

end GraphCompare
