import GraphCompare.Markup.Delimiter

/-!
# References in text

In text and in attribute values an ampersand opens a reference, which goes to the next semicolon:
one of five names for characters that markup gives a meaning to, or the number of a character,
decimal or hexadecimal. `resolve` puts in the characters. A fault tells where in the text the
reference is, in bytes from the start of the text, or what is wrong with the number.
-/

namespace GraphCompare.Markup

/-- What is wrong with the number of a character. -/
inductive NumberFault where
  | sign
  | empty
  | digit
  | tooLarge
  | noCharacter (code : Nat)
  | nul
deriving DecidableEq

/-- The words of a fault. -/
def NumberFault.message : NumberFault → String
  | sign => "unexpected number sign"
  | empty => "cannot parse integer from empty string"
  | digit => "invalid digit found in string"
  | tooLarge => "number too large to fit in target type"
  | noCharacter code => "`" ++ String.ofList (Nat.toDigits 10 code) ++ "` is not a valid codepoint"
  | nul => "0x0 character is not permitted in XML"

/-- Why references cannot be resolved. -/
inductive ReferenceFault where
  | unknownName (first last : Nat) (name : List Char)
  | unterminated (first last : Nat)
  | number (fault : NumberFault)
deriving DecidableEq

/-- A range of bytes, without its end. -/
def rangeText (first last : Nat) : String :=
  String.ofList (Nat.toDigits 10 first) ++ ".." ++ String.ofList (Nat.toDigits 10 last)

/-- The words of a fault. -/
def ReferenceFault.message : ReferenceFault → String
  | unknownName first last name =>
    "at " ++ rangeText first last ++ ": unrecognized entity `" ++ String.ofList name ++ "`"
  | unterminated first last =>
    "Error while escaping character at range " ++ rangeText first last ++
      ": Cannot find ';' after '&'"
  | number fault => "invalid character reference: " ++ fault.message

/-- The value of a digit in a base up to sixteen. -/
def digitIn? (base : Nat) (c : Char) : Option Nat :=
  let value :=
    if '0' ≤ c ∧ c ≤ '9' then c.toNat - '0'.toNat
    else if 'a' ≤ c ∧ c ≤ 'f' then c.toNat - 'a'.toNat + 10
    else if 'A' ≤ c ∧ c ≤ 'F' then c.toNat - 'A'.toNat + 10
    else base
  if value < base then some value else none

/-- Reads digits into a number of 32 bits, from the left; whichever comes first counts, a character
that is no digit or the digit that makes the number too large. -/
def codeFrom (base n : Nat) : List Char → Except NumberFault Nat
  | [] => .ok n
  | c :: rest =>
    match digitIn? base c with
    | none => .error .digit
    | some d =>
      if n * base + d < UInt32.size then codeFrom base (n * base + d) rest else .error .tooLarge

/-- The number of a character. -/
def code (base : Nat) (cs : List Char) : Except NumberFault Nat :=
  match cs with
  | [] => .error .empty
  | c :: _ => if c = '+' ∨ c = '-' then .error .sign else codeFrom base 0 cs

/-- The character of a number; nul is none. -/
def characterOf (code : Nat) : Except NumberFault Char :=
  if code = 0 then .error .nul
  else if code.isValidChar then .ok (.ofNat code)
  else .error (.noCharacter code)

/-- The character that a number stands for, with an `x` before it where it is hexadecimal. -/
def numbered (cs : List Char) : Except NumberFault Char :=
  match cs with
  | 'x' :: digits => (code 16 digits).bind characterOf
  | digits => (code 10 digits).bind characterOf

/-- The character that a name stands for. -/
def named? (name : List Char) : Option Char :=
  match String.ofList name with
  | "lt" => some '<'
  | "gt" => some '>'
  | "amp" => some '&'
  | "apos" => some '\''
  | "quot" => some '"'
  | _ => none

/-- The character of a reference, from what is between ampersand and semicolon. -/
def reference (first : Nat) (cs : List Char) : Except ReferenceFault Char :=
  match cs with
  | '#' :: number => (numbered number).mapError .number
  | name =>
    match named? name with
    | some c => .ok c
    | none => .error (.unknownName first (first + byteCount name) name)

/-- Whether a character ends the name of a reference. -/
def endsName (c : Char) : Bool := c = '&' || c = ';'

set_option linter.unusedVariables false in
/-- Resolves the references in the rest of a text, of which `read` bytes have been read and `total`
is the length in bytes. -/
def resolveFrom (read total : Nat) (cs : List Char) : Except ReferenceFault (List Char) :=
  match cs with
  | [] => .ok []
  | '&' :: rest =>
    match h : rest.dropWhile fun c => !endsName c with
    | ';' :: after =>
      let name := rest.takeWhile fun c => !endsName c
      match reference (read + 1) name with
      | .ok c =>
        (resolveFrom (read + 2 + byteCount name) total after).map (c :: ·)
      | .error fault => .error fault
    | _ => .error (.unterminated read total)
  | c :: rest => (resolveFrom (read + c.utf8Size) total rest).map (c :: ·)
termination_by cs.length
decreasing_by
  · have : (rest.dropWhile fun c => !endsName c).length ≤ rest.length :=
      (List.dropWhile_suffix _).length_le
    simp only [h, List.length_cons] at this ⊢
    omega
  · simp

/-- The text with its references resolved. -/
def resolve (cs : List Char) : Except ReferenceFault (List Char) :=
  resolveFrom 0 (byteCount cs) cs

end GraphCompare.Markup
