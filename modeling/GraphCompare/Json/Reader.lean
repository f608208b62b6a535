import GraphCompare.Json.Basic
import GraphCompare.Decimal.Numeral

/-!
# Reading JSON

The grammar of JSON, read strictly: no comments, no comma before a closing bracket, no leading
zeros, no controls inside a string, and nothing but white space after the document. `Json.read?`
takes a whole text; it has no value where the text is not well formed. Pieces that are well formed
but stand for no value become `Json.unusable`.

Every reader takes the characters that are left and gives back what it read with what is left then.
The readers of nested values count down from a bound on the number of calls, twice the length of the
text, since of two calls at least one takes a character.
-/

namespace GraphCompare.Json

/-- The white space of JSON. -/
def isBlank (c : Char) : Bool := c = ' ' || c = '\n' || c = '\r' || c = '\t'

/-- What is left after white space. -/
def skipBlank (cs : List Char) : List Char := cs.dropWhile isBlank

/-- The value of a hexadecimal digit. -/
def hexDigit? (c : Char) : Option Nat :=
  if '0' ≤ c ∧ c ≤ '9' then some (c.toNat - '0'.toNat)
  else if 'a' ≤ c ∧ c ≤ 'f' then some (c.toNat - 'a'.toNat + 10)
  else if 'A' ≤ c ∧ c ≤ 'F' then some (c.toNat - 'A'.toNat + 10)
  else none

/-- The code unit of four hexadecimal digits. -/
def hexUnit? (a b c d : Char) : Option Nat := do
  return (((← hexDigit? a) * 16 + (← hexDigit? b)) * 16 + (← hexDigit? c)) * 16 + (← hexDigit? d)

/-- A string on the way: its characters in reverse, the first half of a surrogate pair that waits
for the second, and whether a half was left alone. -/
structure StringScan where
  chars : List Char
  half : Option Nat
  broken : Bool

namespace StringScan

/-- Takes a character. -/
def push (s : StringScan) (c : Char) : StringScan :=
  ⟨c :: s.chars, none, s.broken || s.half.isSome⟩

/-- Takes a code unit: a character, or half of a pair. -/
def pushUnit (s : StringScan) (u : Nat) : StringScan :=
  if 0xD800 ≤ u ∧ u < 0xDC00 then ⟨s.chars, some u, s.broken || s.half.isSome⟩
  else if 0xDC00 ≤ u ∧ u < 0xE000 then
    match s.half with
    | some h =>
      ⟨Char.ofNat (0x10000 + (h - 0xD800) * 0x400 + (u - 0xDC00)) :: s.chars, none, s.broken⟩
    | none => ⟨s.chars, none, true⟩
  else s.push (Char.ofNat u)

/-- The string at its closing quote, if it stands for one. -/
def finish (s : StringScan) : Option String :=
  if s.broken || s.half.isSome then none else some (String.ofList s.chars.reverse)

end StringScan

/-- The character of a two-character escape. -/
def escape? (c : Char) : Option Char :=
  match c with
  | '"' => some '"'
  | '\\' => some '\\'
  | '/' => some '/'
  | 'b' => some '\x08'
  | 'f' => some '\x0c'
  | 'n' => some '\n'
  | 'r' => some '\r'
  | 't' => some '\t'
  | _ => none

/-- A string from behind its opening quote to behind its closing one. The string itself is missing
where the text is well formed but stands for none. -/
def stringBody? (s : StringScan) : List Char → Option (Option String × List Char)
  | '"' :: rest => some (s.finish, rest)
  | '\\' :: 'u' :: a :: b :: c :: d :: rest =>
    match hexUnit? a b c d with
    | some u => stringBody? (s.pushUnit u) rest
    | none => none
  | '\\' :: c :: rest =>
    match escape? c with
    | some c => stringBody? (s.push c) rest
    | none => none
  | c :: rest => if c = '\\' ∨ c.toNat < 0x20 then none else stringBody? (s.push c) rest
  | [] => none

/-- A string from behind its opening quote. -/
def string? (cs : List Char) : Option (Option String × List Char) :=
  stringBody? ⟨[], none, false⟩ cs

/-- A floating point number; beyond the range there is none. -/
def ofBinary64 (x : Binary64) : Json :=
  match x.value with
  | .finite .. => float x
  | _ => unusable

/-- The value of an integer numeral: an integer where it fits in 64 bits, with or without sign, and
otherwise a floating point number. Minus zero is the floating point one. -/
def ofInteger (negative : Bool) (n : Nat) : Json :=
  if negative then
    if n = 0 ∨ -(n : Int) < Int64.minValue.toInt then ofBinary64 (.ofDecimal true n 0)
    else int (-(n : Int))
  else if n < UInt64.size then int n
  else ofBinary64 (.ofDecimal false n 0)

/-- The digits behind a point, none where there is no point. -/
def fraction? : List Char → Option (List Char × List Char)
  | '.' :: rest => Numeral.takeDigits? rest
  | rest => some ([], rest)

/-- The power of ten behind an `e`, if there is one. -/
def power? : List Char → Option (Option Int × List Char)
  | c :: rest =>
    if c = 'e' ∨ c = 'E' then
      let (negative, rest) := Numeral.takeSign rest
      (Numeral.takeDigits? rest).map fun (digits, rest) =>
        let n : Int := Numeral.ofDigits digits
        (some (if negative then -n else n), rest)
    else some (none, c :: rest)
  | [] => some (none, [])

/-- A number, its sign already taken. -/
def number? (negative : Bool) (cs : List Char) : Option (Json × List Char) := do
  let (whole, rest) ← Numeral.takeDigits? cs
  if whole.head? = some '0' ∧ 1 < whole.length then none
  let (fraction, rest) ← fraction? rest
  let (power, rest) ← power? rest
  let n := Numeral.ofDigits (whole ++ fraction)
  if fraction = [] ∧ power = none then return (ofInteger negative n, rest)
  return (ofBinary64 (.ofDecimal negative n (power.getD 0 - fraction.length)), rest)

/-- A word or a number. -/
def scalar? : List Char → Option (Json × List Char)
  | 'n' :: 'u' :: 'l' :: 'l' :: rest => some (null, rest)
  | 't' :: 'r' :: 'u' :: 'e' :: rest => some (bool true, rest)
  | 'f' :: 'a' :: 'l' :: 's' :: 'e' :: rest => some (bool false, rest)
  | '-' :: rest => number? true rest
  | cs => number? false cs

/-- An object of its members; one of the names may be missing. -/
def ofMembers (members : List (Option String × Json)) : Json :=
  match members.mapM fun (k, j) => k.map (·, j) with
  | some members => object members
  | none => unusable

mutual

/-- A value, after white space. -/
def value? : Nat → List Char → Option (Json × List Char)
  | 0, _ => none
  | calls + 1, cs =>
    match skipBlank cs with
    | '"' :: rest =>
      (string? rest).map fun
        | (some s, rest) => (string s, rest)
        | (none, rest) => (unusable, rest)
    | '[' :: rest =>
      match skipBlank rest with
      | ']' :: rest => some (array [], rest)
      | rest => (items? calls rest).map fun (items, rest) => (array items, rest)
    | '\x7b' :: rest =>
      match skipBlank rest with
      | '\x7d' :: rest => some (object [], rest)
      | rest => (members? calls rest).map fun (members, rest) => (ofMembers members, rest)
    | cs => scalar? cs

/-- The items of an array and its closing bracket. -/
def items? : Nat → List Char → Option (List Json × List Char)
  | 0, _ => none
  | calls + 1, cs =>
    match value? calls cs with
    | some (item, rest) =>
      match skipBlank rest with
      | ',' :: rest => (items? calls rest).map fun (items, rest) => (item :: items, rest)
      | ']' :: rest => some ([item], rest)
      | _ => none
    | none => none

/-- The members of an object and its closing bracket. -/
def members? : Nat → List Char → Option (List (Option String × Json) × List Char)
  | 0, _ => none
  | calls + 1, cs =>
    match skipBlank cs with
    | '"' :: rest =>
      match string? rest with
      | some (name, rest) =>
        match skipBlank rest with
        | ':' :: rest =>
          match value? calls rest with
          | some (value, rest) =>
            match skipBlank rest with
            | ',' :: rest =>
              (members? calls rest).map fun (members, rest) => ((name, value) :: members, rest)
            | '\x7d' :: rest => some ([(name, value)], rest)
            | _ => none
          | none => none
        | _ => none
      | none => none
    | _ => none

end

/-- The document that a text holds. -/
def read? (s : String) : Option Json :=
  let cs := s.toList
  match value? (2 * cs.length + 2) cs with
  | some (j, rest) => if (skipBlank rest).isEmpty then some j else none
  | none => none

end GraphCompare.Json
