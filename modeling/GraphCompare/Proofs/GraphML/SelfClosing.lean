import Mathlib
import GraphCompare.Proofs.GraphML.Role
import GraphCompare.Proofs.GraphML.Truncation
import GraphCompare.Proofs.Markup.Writer

/-!
# Elements without content

An element without content can be written with one tag or with two (`oneTag`, `twoTags`). The
reader has a table for each form, and the two tables agree on all elements but two: a data or a
default element has the empty text as its value if it is written with two tags, and with one tag it
is passed over. `readGraph_oneTag` says this for every place of every document: one tag can be put
for two, or, for a data or a default element, for a comment.

Two things are left out. A key inside a key and a record inside a record take the place of the one
around them if they are written with two tags. And an error in the markup behind the element is the
same error at another position.
-/

namespace GraphCompare

namespace Markup

/-! ## Places in a text -/

/-- The elements that are open where a text ends. -/
def openBehind (text : String) : Open := ((read text).1.foldlM Event.carry []).getD []

section

variable {α : Type} {p : α → Bool} {x : α}

/-- What is not taken ends the taking. -/
theorem takeWhile_append_cons (hx : p x = false) (front rest : List α) :
    (front ++ x :: rest).takeWhile p = front.takeWhile p := by
  induction front with
  | nil => rw [List.nil_append, List.takeWhile_cons_of_neg (by simp [hx]), List.takeWhile_nil]
  | cons c front ih => rw [List.cons_append, List.takeWhile_cons, List.takeWhile_cons, ih]

theorem dropWhile_append_cons (hx : p x = false) (front rest : List α) :
    (front ++ x :: rest).dropWhile p = front.dropWhile p ++ x :: rest := by
  induction front with
  | nil => rw [List.nil_append, List.dropWhile_cons_of_neg (by simp [hx]), List.dropWhile_nil]; rfl
  | cons c front ih =>
    rw [List.cons_append, List.dropWhile_cons, List.dropWhile_cons, ih]
    split <;> rfl

end

/-- A text in order has the same events whatever markup follows it. -/
theorem events_before_tag {opened : Open} {cs : List Char} (h : (events opened cs).2 = none) :
    ∃ inside, (events opened cs).1.foldlM Event.carry opened = some inside ∧ ∀ rest,
      events opened (cs ++ '<' :: rest) =
        ((events opened cs).1 ++ (events inside ('<' :: rest)).1,
          (events inside ('<' :: rest)).2) := by
  fun_induction events opened cs with
  | case1 opened => exact ⟨opened, rfl, fun _ => rfl⟩
  | case2 opened cs e inside behind hm others fault heq ih =>
    rw [heq] at ih
    obtain ⟨last, hlast, happend⟩ := ih h
    obtain ⟨carry, same⟩ := markup_eq_ok hm
    refine ⟨last, ?_, fun rest => ?_⟩
    · rw [List.foldlM_cons, carry]
      exact hlast
    · rw [List.cons_append, events_tag (same _), happend]
      rfl
  | case3 opened cs fault behind hm => cases h
  | case4 opened c cs hc others fault heq ih =>
    rw [heq] at ih
    obtain ⟨last, hlast, happend⟩ := ih h
    refine ⟨last, hlast, fun rest => ?_⟩
    rw [List.cons_append, events_text opened hc, takeWhile_append_cons (by rfl),
      dropWhile_append_cons (by rfl), happend]
    rfl

theorem carry_read (text : String) :
    (read text).1.foldlM Event.carry [] = some (openBehind text) := by
  obtain ⟨inside, carry⟩ := exists_carry_events [] (withoutMark text.toList)
  have carry' : (read text).1.foldlM Event.carry [] = some inside := carry
  rw [openBehind, carry', Option.getD_some]

/-- A document in order is read for itself, and what follows is read from where it ends. -/
theorem read_before_tag {front : String} (h : (read front).2 = none) (rest : List Char) :
    (read (front ++ String.ofList ('<' :: rest))).1 =
        (read front).1 ++ (events (openBehind front) ('<' :: rest)).1 ∧
      (read (front ++ String.ofList ('<' :: rest))).2.map Prod.snd =
        (events (openBehind front) ('<' :: rest)).2.map Prod.fst := by
  have sound : (events [] (withoutMark front.toList)).2 = none := by simpa [read] using h
  obtain ⟨inside, carry, happend⟩ := events_before_tag sound
  have place : openBehind front = inside :=
    Option.some_inj.1 ((carry_read front).symm.trans carry)
  have unmarked : withoutMark (front.toList ++ '<' :: rest) =
      withoutMark front.toList ++ '<' :: rest := by
    by_cases hnil : front.toList = []
    · rw [hnil]
      exact withoutMark_eq (by simp)
    · exact GraphML.withoutMark_append hnil _
  simp only [read, String.toList_append, String.toList_ofList, unmarked, happend, place,
    Option.map_map, Function.comp_def, and_self]

/-! ## The two forms -/

/-- What may stand between the brackets of a start tag: it begins like a tag, it does not end before
its bracket, nor does its name, and it does not end like a tag that closes itself. -/
structure TagContent (content : List Char) : Prop where
  nonempty : content ≠ []
  first : content.head? ∉ [some '!', some '?', some '/']
  whole : content.foldlM tagStep none = some none
  name : (Tag.ofContent content).name.foldlM tagStep none = some none
  last : content.getLast? ≠ some '/'

/-- A tag that closes itself. -/
def oneTag (content : List Char) : List Char := '<' :: content ++ ['/', '>']

/-- A start tag with its end tag behind it. -/
def twoTags (content : List Char) : List Char :=
  '<' :: content ++ '>' :: closeTag (Tag.ofContent content).name

/-- A comment without words. -/
def noComment : List Char := ['<', '!', '-', '-', '-', '-', '>']

/-- The name of a tag ends where white space begins. -/
theorem isBlank_of_mem_name {content : List Char} :
    ∀ c ∈ (Tag.ofContent content).name, isBlank c = false := by
  intro c hc
  simpa using List.mem_takeWhile_imp hc

namespace TagContent

variable {content : List Char} (h : TagContent content)
include h

theorem begins (more : List Char) :
    ∃ c ∈ (content ++ more).head?, c ≠ '!' ∧ c ≠ '?' ∧ c ≠ '/' := by
  obtain ⟨c, behind, rfl⟩ := List.exists_cons_of_ne_nil h.nonempty
  exact ⟨c, rfl, by simpa using h.first⟩

theorem stands_oneTag : Stands (oneTag content) [.empty (.ofContent content)] := by
  intro opened rest
  have goesOn : (content ++ ['/']).foldlM tagStep none = some none := by
    rw [List.foldlM_append, h.whole]
    rfl
  have tag := markup_of_begins (h.begins ['/']) goesOn opened rest
  rw [ofTag, if_pos List.getLast?_concat, List.dropLast_concat] at tag
  have text : oneTag content ++ rest = '<' :: (content ++ ['/'] ++ '>' :: rest) := by
    simp [oneTag]
  rw [text, events_tag tag]
  rfl

theorem stands_twoTags : Stands (twoTags content)
    [.start (.ofContent content), .finish (Tag.ofContent content).name] := by
  intro opened rest
  have begins := h.begins []
  rw [List.append_nil] at begins
  have start := markup_of_begins begins h.whole opened
    (closeTag (Tag.ofContent content).name ++ rest)
  rw [ofTag, if_neg h.last] at start
  have finish := markup_closeTag h.name isBlank_of_mem_name opened rest
  have text : twoTags content ++ rest =
      '<' :: (content ++ '>' :: (closeTag (Tag.ofContent content).name ++ rest)) := by
    simp [twoTags]
  rw [text, events_tag start, closeTag, List.append_assoc, List.cons_append,
    List.singleton_append, events_tag finish]
  rfl

end TagContent

theorem markup_comment (opened : Open) (cs : List Char) : markup opened ('!' :: '-' :: cs) =
    piece commentStep (0, 0) .unclosedComment (ofComment opened) ('!' :: '-' :: cs) := rfl

theorem stands_noComment : Stands noComment [.aside] := by
  intro opened rest
  have found : upTo commentStep (0, 0) ('!' :: '-' :: '-' :: '-' :: '-' :: '>' :: rest) =
      some (['!', '-', '-', '-', '-'], rest) := by
    simp [upTo, commentStep]
  have comment : markup opened ('!' :: '-' :: '-' :: '-' :: '-' :: '>' :: rest) =
      (.ok (.aside, opened), rest) := by
    rw [markup_comment, piece, found]
    rfl
  exact events_tag comment

end Markup

namespace GraphML

open Markup (Event Tag Open Balanced Stands TagContent oneTag twoTags noComment openBehind)

/-! ## The two tables -/

/-- Whether an element of a role can be put between elements that are open without taking the place
of one of them: no key is inside a key, and no record inside a record. -/
def Role.Fits (r : Role) (opened : Open) : Prop :=
  (r = .key → ∀ name ∈ opened, ofName name ≠ .key) ∧
    (r.isRecord → ∀ name ∈ opened, ¬ (ofName name).isRecord)

instance (r : Role) (opened : Open) : Decidable (r.Fits opened) :=
  inferInstanceAs (Decidable (_ ∧ _))

namespace Reading

variable {s : Reading} {opened : Open} {t : Tag}

theorem Inside.key?_eq_none (hs : s.Inside opened) (h : Role.Fits .key opened) :
    s.key? = none := by
  by_contra some
  obtain ⟨name, hname, role⟩ := hs.key some
  exact h.1 rfl name hname role

theorem Inside.owner_eq_none (hs : s.Inside opened) {r : Role} (record : r.isRecord)
    (h : r.Fits opened) : s.owner = .none := by
  by_contra some
  obtain ⟨name, hname, role⟩ := hs.owner some
  exact h.2 record name hname role

/-- Data and default elements with one tag are passed over. -/
theorem empty_of_text (s : Reading) (role : Role.ofName t.name ∈ [.default, .data]) :
    s.empty t = .ok s := by
  rw [empty_eq]
  rcases List.mem_pair.1 role with role | role <;> rw [role] <;> rfl

/-- For the other elements one tag does what two tags do. -/
theorem Inside.empty_eq_start_finish (hs : s.Inside opened)
    (role : Role.ofName t.name ∉ [.default, .data]) (fits : (Role.ofName t.name).Fits opened) :
    s.empty t = s.start t >>= fun u => u.finish t.name := by
  rw [empty_eq, start_eq]
  simp only [finish_eq]
  cases hr : Role.ofName t.name <;> simp only [hr] at role fits ⊢
  case key =>
    have none := hs.key?_eq_none fits
    cases readKey t with
    | error e => rfl
    | ok k =>
      exact congrArg (fun x =>
        Except.ok { s with document := s.document.addKey k.1 k.2, key? := x }) none
  case node =>
    have none := hs.owner_eq_none rfl fits
    cases readNode t with
    | error e => rfl
    | ok r =>
      exact congrArg (fun x =>
        Except.ok { s with document := s.document.addRecord (.node r), owner := x }) none
  case edge =>
    have none := hs.owner_eq_none rfl fits
    cases readEdge t with
    | error e => rfl
    | ok r =>
      exact congrArg (fun x =>
        Except.ok { s with document := s.document.addRecord (.edge r), owner := x }) none
  case graph | other => rfl
  case default | data => simp at role

end Reading

/-! ## Documents -/

/-- What goes on from equal results, but for their errors, ends in equal results. -/
theorem mapError_bind_congr {ε α β : Type} {u : ε → ε} {x y : Except ε α}
    (h : x.mapError u = y.mapError u) (f : α → Except ε β) :
    (x >>= f).mapError u = (y >>= f).mapError u := by
  rcases x with e | a <;> rcases y with e' | a'
  case error.error => exact congrArg Except.error (Except.error.inj h)
  case error.ok | ok.error => cases h
  case ok.ok => rw [Except.ok.inj h]

/-- An error without its position in the text. -/
def ReadError.unplaced : ReadError → ReadError
  | markup _ fault => markup 0 fault
  | e => e

theorem Document.read_congr {text text' : String}
    (events : (Markup.read text).1.foldlM Reading.step .initial =
      (Markup.read text').1.foldlM Reading.step .initial)
    (fault : (Markup.read text).2.map Prod.snd = (Markup.read text').2.map Prod.snd) :
    (read text).mapError ReadError.unplaced = (read text').mapError ReadError.unplaced := by
  rw [read, read]
  generalize Markup.read text = a at events fault ⊢
  generalize Markup.read text' = b at events fault ⊢
  obtain ⟨list, fault?⟩ := a
  obtain ⟨list', fault?'⟩ := b
  simp only at events fault ⊢
  rw [events]
  cases list'.foldlM Reading.step .initial with
  | error e => rfl
  | ok s =>
    rcases fault? with _ | ⟨position, f⟩ <;> rcases fault?' with _ | ⟨position', f'⟩ <;>
      cases fault <;> rfl

/-- The events of a piece stand between those before it and those behind it. -/
theorem read_in_place {front : String} (sound : (Markup.read front).2 = none) {cs : List Char}
    {list : List Event} (stands : Stands ('<' :: cs) list) (behind : String) :
    (Markup.read (front ++ String.ofList ('<' :: cs) ++ behind)).1 =
        (Markup.read front).1 ++ (list ++ (Markup.events (openBehind front) behind.toList).1) ∧
      (Markup.read (front ++ String.ofList ('<' :: cs) ++ behind)).2.map Prod.snd =
        (Markup.events (openBehind front) behind.toList).2.map Prod.fst := by
  have text : front ++ String.ofList ('<' :: cs) ++ behind =
      front ++ String.ofList ('<' :: (cs ++ behind.toList)) := by
    rw [← String.toList_inj]
    simp
  have read := Markup.read_before_tag sound (cs ++ behind.toList)
  rw [← List.cons_append, stands] at read
  rw [text]
  exact read

/-- Two pieces can be put for each other in a place where they do the same. -/
theorem readGraph_exchange {front behind : String} {cs cs' : List Char} {list list' : List Event}
    (sound : (Markup.read front).2 = none) (h : Stands ('<' :: cs) list)
    (h' : Stands ('<' :: cs') list') (same : ∀ s : Reading, s.Inside (openBehind front) →
      list.foldlM Reading.step s = list'.foldlM Reading.step s) :
    (readGraph (front ++ String.ofList ('<' :: cs) ++ behind)).mapError ReadError.unplaced =
      (readGraph (front ++ String.ofList ('<' :: cs') ++ behind)).mapError ReadError.unplaced := by
  obtain ⟨events, fault⟩ := read_in_place sound h behind
  obtain ⟨events', fault'⟩ := read_in_place sound h' behind
  have gathered : (Markup.read (front ++ String.ofList ('<' :: cs) ++ behind)).1.foldlM
      Reading.step .initial = (Markup.read (front ++ String.ofList ('<' :: cs') ++ behind)).1.foldlM
        Reading.step .initial := by
    rw [events, events', List.foldlM_append, List.foldlM_append]
    cases hs : (Markup.read front).1.foldlM Reading.step .initial with
    | error e => rfl
    | ok s =>
      have inside := Reading.Inside.initial.foldlM (Markup.carry_read front) hs
      change (list ++ _).foldlM Reading.step s = (list' ++ _).foldlM Reading.step s
      rw [List.foldlM_append, List.foldlM_append, same s inside]
  exact mapError_bind_congr (Document.read_congr gathered (fault.trans fault'.symm)) _

/-- **One tag for two.** In a document that is in order up to some place, an element without content
in this place reads the same with one tag as with two: the same graph comes of it, or the same error
but for its position. Only data and default elements with one tag read like a comment. -/
theorem readGraph_oneTag {front : String} {content : List Char}
    (sound : (Markup.read front).2 = none) (tag : TagContent content) (behind : String) :
    let role := Role.ofName (Tag.ofContent content).name
    let read (piece : List Char) :=
      (readGraph (front ++ String.ofList piece ++ behind)).mapError ReadError.unplaced
    (role ∉ [.default, .data] → role.Fits (openBehind front) →
        read (oneTag content) = read (twoTags content)) ∧
      (role ∈ [.default, .data] → read (oneTag content) = read noComment) := by
  constructor
  · intro role fits
    refine readGraph_exchange sound tag.stands_oneTag tag.stands_twoTags fun s inside => ?_
    rw [List.foldlM_cons, List.foldlM_cons, Reading.step, Reading.step,
      inside.empty_eq_start_finish role fits, bind_assoc]
    rfl
  · intro role
    refine readGraph_exchange sound tag.stands_oneTag Markup.stands_noComment fun s _ => ?_
    rw [List.foldlM_cons, Reading.step, s.empty_of_text role]
    rfl

theorem readGraph_oneTag_loop :
    let text (piece : List Char) := halfWritten ++ String.ofList piece ++ "</graph></graphml>"
    let read (piece : List Char) := (readGraph (text piece)).mapError ReadError.unplaced
    let loop := "edge source=\"a\" target=\"a\"".toList
    let data := "data key=\"k\"".toList
    (read (oneTag loop) = read (twoTags loop) ∧ read (oneTag data) = read noComment) ∧
      ((readGraph (text (twoTags loop))).toOption.map fun g =>
        g.edges.map fun e => (e.source, e.target)) = some [("a", "a")] := by
  intro text read loop data
  have sound : (Markup.read halfWritten).2 = none := by decide +kernel
  have hloop : TagContent loop := ⟨by decide, by decide, by decide, by decide, by decide⟩
  have hdata : TagContent data := ⟨by decide, by decide, by decide, by decide, by decide⟩
  have fits : (Role.ofName (Tag.ofContent loop).name).Fits (openBehind halfWritten) := by
    decide +kernel
  exact ⟨⟨(readGraph_oneTag sound hloop _).1 (by decide) fits,
    (readGraph_oneTag sound hdata _).2 (by decide)⟩, by decide +kernel⟩

/-- A document of one node with something inside. -/
def nodeAround (inside : List Char) : String :=
  "<graphml><graph><node id=\"a\">" ++ String.ofList inside ++ "</node></graph></graphml>"

/-- One tag cannot be put for two in a data element: with two tags the node has an attribute, whose
value is the empty text, and with one tag it has none. -/
theorem readGraph_emptyData :
    let text (form : List Char → List Char) := nodeAround (form "data key=\"k\"".toList)
    let values (text : String) := (readGraph text).toOption.map fun g =>
      g.nodes.map fun n => (n.attributes.get? "k").map Value.text
    (Balanced (Markup.read (text oneTag)).1 ∧ Balanced (Markup.read (text twoTags)).1) ∧
      values (text oneTag) = some [none] ∧ values (text twoTags) = some [some ""] := by
  intro text values
  rw [Markup.balanced_iff, Markup.balanced_iff]
  refine ⟨⟨?_, ?_⟩, ?_, ?_⟩ <;> decide +kernel

end GraphML

end GraphCompare
