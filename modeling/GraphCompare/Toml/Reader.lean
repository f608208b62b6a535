import GraphCompare.Toml.Scalar

/-!
# Reading TOML

A text is read line by line: a header, a name with a value, or nothing, and behind each an optional
comment. A value may go over several lines inside brackets and inside strings with three quotes.
`Toml.read?` has no value where the text is no TOML document or defines something twice.

Every reader takes the characters that are left and gives back what it read with what is left then.
The readers of nested values count down from the greatest depth to which brackets may be nested, and
of a name with dots there may be as many parts.
-/

namespace GraphCompare.Toml

/-- The depth that brackets and dotted names have to stay below. -/
def maxDepth : Nat := 80

/-- Whether a character is white space within a line. -/
def isBlank (c : Char) : Bool := c = ' ' || c = '\t'

/-- What is left after white space within a line. -/
def skipBlank (cs : List Char) : List Char := cs.dropWhile isBlank

/-- Whether a character may stand in a comment, and within a line of a string but for its quotes and
escapes: anything but the controls other than the tab. -/
def isPlain (c : Char) : Bool := c = '\t' || (0x20 ≤ c.toNat && c.toNat ≠ 0x7F)

/-- What is left after the end of a line. -/
def newline? : List Char → Option (List Char)
  | '\n' :: rest => some rest
  | '\r' :: '\n' :: rest => some rest
  | _ => none

/-- What is left after a comment, if there is one. -/
def skipComment : List Char → List Char
  | '#' :: rest => rest.dropWhile isPlain
  | cs => cs

/-- What is left after the rest of a line that holds nothing more. -/
def lineEnd? (cs : List Char) : Option (List Char) :=
  match skipComment (skipBlank cs) with
  | [] => some []
  | cs => newline? cs

/-- What is left after white space, comments and ends of lines, as far as `lines` of them reach. -/
def skipLines : (lines : Nat) → List Char → List Char
  | 0, cs => cs
  | lines + 1, cs =>
    match newline? (skipComment (skipBlank cs)) with
    | some rest => skipLines lines rest
    | none => skipBlank cs

/-- What is left after white space, comments and ends of lines. -/
def skipSpace (cs : List Char) : List Char := skipLines cs.length cs

/-! ## Strings -/

/-- The character of some hexadecimal digits. -/
def hexCharacter? (digits : List Char) : Option Char :=
  if digits.all isHexDigit then
    let code := digits.foldl (fun n c => n * 16 + digitValue c) 0
    if code.isValidChar then some (.ofNat code) else none
  else none

/-- The character of an escape, and what follows it. -/
def escape? : List Char → Option (Char × List Char)
  | 'b' :: rest => some ('\x08', rest)
  | 't' :: rest => some ('\t', rest)
  | 'n' :: rest => some ('\n', rest)
  | 'f' :: rest => some ('\x0c', rest)
  | 'r' :: rest => some ('\r', rest)
  | '"' :: rest => some ('"', rest)
  | '\\' :: rest => some ('\\', rest)
  | 'u' :: rest =>
    if rest.length < 4 then none else (hexCharacter? (rest.take 4)).map fun c => (c, rest.drop 4)
  | 'U' :: rest =>
    if rest.length < 8 then none else (hexCharacter? (rest.take 8)).map fun c => (c, rest.drop 8)
  | _ => none

/-- The kind of a string: whether it has escapes, and whether it may go over several lines. -/
structure StringKind where
  quote : Char
  escapes : Bool
  lines : Bool

/-- How many quotes a text starts with. -/
def quoteCount (q : Char) (cs : List Char) : Nat := (cs.takeWhile (· = q)).length

/-- What is left after white space and ends of lines. -/
def skipBlankLines : List Char → List Char
  | '\r' :: '\n' :: rest => skipBlankLines rest
  | c :: rest => if isBlank c || c = '\n' then skipBlankLines rest else c :: rest
  | [] => []

/-- What is left after the end of a line that is escaped, and after all white space and ends of
lines behind it. -/
def escapedLine? (cs : List Char) : Option (List Char) :=
  (newline? (skipBlank cs)).map skipBlankLines

/-- A string from behind its opening quotes to behind its closing ones. Ends of lines are kept as
single characters. Of three to five quotes in a row the last three close the string. -/
def stringBody? (kind : StringKind) : (steps : Nat) → List Char → Option (List Char × List Char)
  | 0, _ => none
  | steps + 1, cs =>
    let next (before : List Char) (rest : List Char) : Option (List Char × List Char) :=
      (stringBody? kind steps rest).map fun (s, rest) => (before ++ s, rest)
    match cs with
    | [] => none
    | c :: rest =>
      if c = kind.quote then
        let count := quoteCount c cs
        if !kind.lines then some ([], rest)
        else if count < 3 then next (List.replicate count c) (cs.drop count)
        else if count ≤ 5 then some (List.replicate (count - 3) c, cs.drop count)
        else none
      else if c = '\\' ∧ kind.escapes then
        match escape? rest with
        | some (c, rest) => next [c] rest
        | none => if kind.lines then (escapedLine? rest).bind (next []) else none
      else if isPlain c then next [c] rest
      else if kind.lines then (newline? cs).bind (next ['\n'])
      else none

/-- A string behind opening quotes of one kind. -/
def stringOf? (kind : StringKind) (cs : List Char) : Option (String × List Char) :=
  (stringBody? kind (cs.length + 1) cs).map fun (s, rest) => (String.ofList s, rest)

/-- A string within a line. -/
def shortString? : List Char → Option (String × List Char)
  | '"' :: rest => stringOf? ⟨'"', true, false⟩ rest
  | '\'' :: rest => stringOf? ⟨'\'', false, false⟩ rest
  | _ => none

/-- A string; the end of a line right behind three quotes does not belong to it. -/
def string? (cs : List Char) : Option (String × List Char) :=
  let long (kind : StringKind) (rest : List Char) : Option (String × List Char) :=
    stringOf? kind ((newline? rest).getD rest)
  match cs with
  | '"' :: '"' :: '"' :: rest => long ⟨'"', true, true⟩ rest
  | '\'' :: '\'' :: '\'' :: rest => long ⟨'\'', false, true⟩ rest
  | cs => shortString? cs

/-! ## Names -/

/-- Whether a character may stand in a name without quotes. -/
def inBareName (c : Char) : Bool := c.isAlphanum || c = '-' || c = '_'

/-- One part of a name, with the white space around it. -/
def namePart? (cs : List Char) : Option (String × List Char) :=
  let cs := skipBlank cs
  let part := match cs.takeWhile inBareName with
    | [] => shortString? cs
    | name => some (String.ofList name, cs.dropWhile inBareName)
  part.map fun (name, rest) => (name, skipBlank rest)

/-- A name with dots: the parts before the last one, and the last one. -/
def nameWithin? : (parts : Nat) → List Char → Option (List String × String × List Char)
  | 0, _ => none
  | parts + 1, cs =>
    match namePart? cs with
    | some (name, '.' :: rest) =>
      (nameWithin? parts rest).map fun (path, last, rest) => (name :: path, last, rest)
    | some (name, rest) => some ([], name, rest)
    | none => none

/-- A name with dots. -/
def name? (cs : List Char) : Option (List String × String × List Char) :=
  nameWithin? (maxDepth - 1) cs

/-! ## Values -/

/-- Whether a character can belong to a number, a date or a word. -/
def inScalar (c : Char) : Bool :=
  c.isAlphanum || c = '+' || c = '-' || c = '_' || c = '.' || c = ':'

/-- A number, a date or a word. A time may follow its date behind one space. -/
def scalarRun? (cs : List Char) : Option (Toml × List Char) :=
  let run := cs.takeWhile inScalar
  let rest := cs.dropWhile inScalar
  match afterDate? run, rest with
  | some [], ' ' :: more =>
    if isZonedTime (more.takeWhile inScalar) then some (.date, more.dropWhile inScalar)
    else some (.date, rest)
  | _, _ => (scalar? run).map fun v => (v, rest)

/-- The items of an array and its closing bracket. A comma may follow the last item. -/
def itemsWith? (value? : List Char → Option (Toml × List Char)) :
    (steps : Nat) → List Char → Option (List Toml × List Char)
  | 0, _ => none
  | steps + 1, cs =>
    match skipSpace cs with
    | ']' :: rest => some ([], rest)
    | cs =>
      match value? cs with
      | some (item, rest) =>
        match skipSpace rest with
        | ',' :: rest =>
          (itemsWith? value? steps rest).map fun (items, rest) => (item :: items, rest)
        | ']' :: rest => some ([item], rest)
        | _ => none
      | none => none

/-- A name with its value. -/
def pairWith? (value? : List Char → Option (Toml × List Char)) (cs : List Char) :
    Option ((List String × String × Toml) × List Char) :=
  match name? cs with
  | some (path, name, '=' :: rest) =>
    (value? (skipBlank rest)).map fun (v, rest) => ((path, name, v), rest)
  | _ => none

/-- The entries of a table in braces and its closing brace. A comma is followed by an entry. -/
def pairsWith? (value? : List Char → Option (Toml × List Char)) :
    (steps : Nat) → List Char → Option (List (List String × String × Toml) × List Char)
  | 0, _ => none
  | steps + 1, cs =>
    match pairWith? value? cs with
    | some (pair, rest) =>
      match skipBlank rest with
      | ',' :: rest => (pairsWith? value? steps rest).map fun (pairs, rest) => (pair :: pairs, rest)
      | '\x7d' :: rest => some ([pair], rest)
      | _ => none
    | none => none

/-- A value. -/
def value? : (depth : Nat) → List Char → Option (Toml × List Char)
  | depth, '[' :: rest =>
    match depth with
    | 0 => none
    | depth + 1 =>
      (itemsWith? (value? depth) (rest.length + 1) rest).map fun (items, rest) =>
        (.array items, rest)
  | depth, '\x7b' :: rest =>
    match depth with
    | 0 => none
    | depth + 1 =>
      match skipBlank rest with
      | '\x7d' :: rest => some (.inlineTable [], rest)
      | rest => do
        let (pairs, rest) ← pairsWith? (value? depth) (rest.length + 1) rest
        return (.inlineTable (← inlineEntries? pairs), rest)
  | _, '"' :: rest => (string? ('"' :: rest)).map fun (s, rest) => (.string s, rest)
  | _, '\'' :: rest => (string? ('\'' :: rest)).map fun (s, rest) => (.string s, rest)
  | _, cs => scalarRun? cs

/-! ## Documents -/

/-- A document on the way: what has been defined, and the path of the table that is open. -/
structure Draft where
  root : Entries
  path : List String

/-- Reads the header of a table: its name and closing brackets. -/
def header? (closing : List Char) (cs : List Char) :
    Option (List String × String × List Char) := do
  let (path, name, rest) ← name? cs
  if closing.isPrefixOf rest then
    return (path, name, ← lineEnd? (rest.drop closing.length))
  else none

/-- Reads a line. -/
def line? (d : Draft) (cs : List Char) : Option (Draft × List Char) :=
  match cs with
  | '[' :: '[' :: rest => do
    let (path, name, rest) ← header? [']', ']'] rest
    let root ← d.root.changeUnder? path (Entries.pushTable? name)
    return (⟨root, path ++ [name]⟩, rest)
  | '[' :: rest => do
    let (path, name, rest) ← header? [']'] rest
    let root ← d.root.changeUnder? path (Entries.openTable? name)
    return (⟨root, path ++ [name]⟩, rest)
  | cs =>
    match lineEnd? cs with
    | some rest => some (d, rest)
    | none => do
      let ((path, name, v), rest) ← pairWith? (value? (maxDepth - 1)) cs
      let root ← d.root.changeUnder? d.path (Entries.define? path name v)
      return ({ d with root }, ← lineEnd? rest)

/-- Reads the lines that are left. -/
def lines? : (lines : Nat) → Draft → List Char → Option Entries
  | 0, _, _ => none
  | lines + 1, d, cs =>
    match skipBlank cs with
    | [] => some d.root
    | cs => (line? d cs).bind fun (d, rest) => lines? lines d rest

/-- The document that a text holds. A byte order mark at its start is passed over. -/
def read? (s : String) : Option Entries :=
  let cs := match s.toList with
    | '\ufeff' :: rest => rest
    | cs => cs
  lines? (cs.length + 1) ⟨[], []⟩ cs

end GraphCompare.Toml
