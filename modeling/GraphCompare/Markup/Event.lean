import GraphCompare.Markup.Tag

/-!
# Markup as a sequence of events

A document is read as a sequence of events: start tags, end tags, tags of empty elements, pieces of
text, CDATA sections, and markup that carries no data (comments, instructions, document types). An
end tag must name the innermost element that is open. Elements that are still open at the end of the
document are not looked at: the sequence just ends there.

Reading stops at the first fault. `events` gives the events before it and the fault with the text
that is left behind the piece that is at fault, from which `read` computes its position: the number
of bytes before that rest, without a byte order mark.
-/

namespace GraphCompare.Markup

/-- A piece of a document. -/
inductive Event where
  | start (tag : Tag)
  | empty (tag : Tag)
  | finish (name : List Char)
  /-- Text with its references as they are written. -/
  | text (raw : List Char)
  /-- Text that stands for itself. -/
  | cdata (content : List Char)
  /-- Markup without data. -/
  | aside
deriving DecidableEq

/-- Why a document cannot be read on. -/
inductive Fault where
  | unclosedTag
  | unclosedComment
  | unclosedCData
  | unclosedDoctype
  | unclosedInstruction
  | unknownMarkup
  | mismatchedEnd (expected found : List Char)
  | unmatchedEnd (found : List Char)
  | missingDoctypeName
deriving DecidableEq

/-- The words of a fault; an element is quoted as its end tag. -/
def Fault.message : Fault → String
  | unclosedTag => "syntax error: tag not closed: `>` not found before end of input"
  | unclosedComment => "syntax error: comment not closed: `-->` not found before end of input"
  | unclosedCData => "syntax error: CDATA not closed: `]]>` not found before end of input"
  | unclosedDoctype => "syntax error: DOCTYPE not closed: `>` not found before end of input"
  | unclosedInstruction => "syntax error: processing instruction or xml declaration not closed: " ++
      "`?>` not found before end of input"
  | unknownMarkup => "syntax error: unknown or missed symbol in markup"
  | mismatchedEnd expected found => "ill-formed document: expected `</" ++
      String.ofList expected ++ ">`, but `</" ++ String.ofList found ++ ">` was found"
  | unmatchedEnd found => "ill-formed document: close tag `</" ++ String.ofList found ++
      ">` does not match any open tag"
  | missingDoctypeName => "ill-formed document: `<!DOCTYPE>` declaration does not contain " ++
      "a name of a document type"

/-- The names of the elements that are open, the innermost first. -/
abbrev Open := List (List Char)

/-- What a piece of markup comes to: an event and the elements that are open behind it. -/
abbrev Outcome := Except Fault (Event × Open)

/-- A start tag, or the tag of an empty element, from what is between the brackets. -/
def ofTag (opened : Open) (content : List Char) : Event × Open :=
  if content.getLast? = some '/' then (.empty (.ofContent content.dropLast), opened)
  else
    let tag := Tag.ofContent content
    (.start tag, tag.name :: opened)

/-- A name without the white space at its end. A name of nothing but white space stays as it is. -/
def endName (content : List Char) : List Char :=
  match content.reverse.dropWhile isBlank with
  | [] => content
  | name => name.reverse

/-- An end tag, from what is between the slash and the bracket. -/
def ofEndTag (opened : Open) (content : List Char) : Outcome :=
  let name := endName content
  match opened with
  | [] => .error (.unmatchedEnd name)
  | expected :: outer =>
    if name = expected then .ok (.finish name, outer) else .error (.mismatchedEnd expected name)

/-- A comment, from what is between the brackets and dashes that end it. -/
def ofComment (opened : Open) (content : List Char) : Outcome :=
  if "!--".toList.isPrefixOf content then .ok (.aside, opened) else .error .unclosedComment

/-- A CDATA section, from what is between the brackets. -/
def ofCData (opened : Open) (content : List Char) : Outcome :=
  if "![CDATA[".toList.isPrefixOf content then
    .ok (.cdata ((content.drop 8).take (content.length - 10)), opened)
  else .error .unclosedCData

/-- A document type, from what is between the brackets. The keyword may have letters of any case,
and something other than white space has to follow. -/
def ofDoctype (opened : Open) (content : List Char) : Outcome :=
  if "!DOCTYPE".toList.isPrefixOf ((content.take 8).map Char.toUpper) then
    if (content.drop 8).all isBlank then .error .missingDoctypeName else .ok (.aside, opened)
  else .error .unclosedDoctype

/-- An instruction, from what is between the brackets: a question mark at each end. -/
def ofInstruction (opened : Open) (content : List Char) : Outcome :=
  if 1 < content.length ∧ content.getLast? = some '?' then .ok (.aside, opened)
  else .error .unclosedInstruction

/-- A piece of markup behind its opening bracket: where it ends, what it comes to, and what follows.
Without an end everything belongs to the piece. -/
def markup (opened : Open) (cs : List Char) : Outcome × List Char :=
  let piece {σ : Type} (step : σ → Char → Option σ) (start : σ) (unclosed : Fault)
      (outcome : List Char → Outcome) : Outcome × List Char :=
    match upTo step start cs with
    | some (content, rest) => (outcome content, rest)
    | none => (.error unclosed, [])
  match cs with
  | '!' :: '[' :: _ => piece cdataStep 0 .unclosedCData (ofCData opened)
  | '!' :: '-' :: _ => piece commentStep (0, 0) .unclosedComment (ofComment opened)
  | '!' :: 'D' :: _ | '!' :: 'd' :: _ => piece doctypeStep 0 .unclosedDoctype (ofDoctype opened)
  | '!' :: _ => (.error .unknownMarkup, cs)
  | '?' :: _ => piece instructionStep false .unclosedInstruction (ofInstruction opened)
  | '/' :: _ => piece tagStep none .unclosedTag fun content => ofEndTag opened (content.drop 1)
  | _ => piece tagStep none .unclosedTag fun content => .ok (ofTag opened content)

theorem length_markup_le (opened : Open) (cs : List Char) :
    (markup opened cs).2.length ≤ cs.length := by
  have key : ∀ {σ : Type} (step : σ → Char → Option σ) (start : σ) (unclosed : Fault)
      (outcome : List Char → Outcome),
      (match upTo step start cs with
        | some (content, rest) => (outcome content, rest)
        | none => (.error unclosed, []) : Outcome × List Char).2.length ≤ cs.length := by
    intro σ step start unclosed outcome
    split
    · rename_i h
      have := length_of_upTo h
      simp only
      omega
    · exact Nat.zero_le _
  unfold markup
  split <;> first | exact key .. | exact Nat.le_refl _

set_option linter.unusedVariables false in
/-- The events of a text, up to the first fault, with the text that is left behind the fault. -/
def events (opened : Open) (cs : List Char) : List Event × Option (Fault × List Char) :=
  match cs with
  | [] => ([], none)
  | '<' :: rest =>
    match h : markup opened rest with
    | (.ok (event, inside), rest') =>
      let (others, fault) := events inside rest'
      (event :: others, fault)
    | (.error fault, rest') => ([], some (fault, rest'))
  | c :: rest =>
    let (others, fault) := events opened (rest.dropWhile (· ≠ '<'))
    (.text (c :: rest.takeWhile (· ≠ '<')) :: others, fault)
termination_by cs.length
decreasing_by
  · have := length_markup_le opened rest
    simp only [h, List.length_cons] at this ⊢
    omega
  · have := length_dropWhile_le (· ≠ '<') rest
    simp only [List.length_cons]
    omega

/-- A document without its byte order mark. -/
def withoutMark (cs : List Char) : List Char :=
  match cs with
  | '\ufeff' :: rest => rest
  | cs => cs

/-- The events of a document, up to the first fault, with its position. -/
def read (s : String) : List Event × Option (Nat × Fault) :=
  let cs := withoutMark s.toList
  let (list, fault) := events [] cs
  (list, fault.map fun (fault, rest) => (byteCount cs - byteCount rest, fault))

end GraphCompare.Markup
