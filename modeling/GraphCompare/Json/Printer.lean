import GraphCompare.Json.Basic

/-!
# Writing JSON

A document is written without any white space (`Json.compact`) or with every item and member on a
line of its own, two spaces further in for each level (`Json.pretty`); there an empty array or
object stays on one line. Strings escape the quote, the backslash and the controls, and nothing
else.
-/

namespace GraphCompare.Json

/-- One character inside a string. -/
def escapedChar (c : Char) : List Char :=
  match c with
  | '"' => ['\\', '"']
  | '\\' => ['\\', '\\']
  | '\x08' => ['\\', 'b']
  | '\x0c' => ['\\', 'f']
  | '\n' => ['\\', 'n']
  | '\r' => ['\\', 'r']
  | '\t' => ['\\', 't']
  | c =>
    if c.toNat < 0x20 then
      ['\\', 'u', '0', '0', Nat.digitChar (c.toNat / 16), Nat.digitChar (c.toNat % 16)]
    else [c]

/-- A string with its quotes. -/
def stringText (s : String) : List Char := '"' :: (s.toList.flatMap escapedChar ++ ['"'])

/-- The texts of items with commas between them. -/
def separated (separator : List Char) : List (List Char) → List Char
  | [] => []
  | [last] => last
  | first :: rest => first ++ separator ++ separated separator rest

mutual

/-- The document without white space. -/
def compactChars : Json → List Char
  | null => "null".toList
  | bool b => if b then "true".toList else "false".toList
  | int i => (Decimal.integerText i).toList
  | float x => (floatLayout.write x).toList
  | string s => stringText s
  | array items => '[' :: (separated [','] (compactItems items) ++ [']'])
  | object members => '\x7b' :: (separated [','] (compactMembers members) ++ ['\x7d'])
  | unusable => "null".toList

/-- The items of an array without white space. -/
def compactItems : List Json → List (List Char)
  | [] => []
  | j :: rest => j.compactChars :: compactItems rest

/-- The members of an object without white space. -/
def compactMembers : List (String × Json) → List (List Char)
  | [] => []
  | (k, j) :: rest => (stringText k ++ ':' :: j.compactChars) :: compactMembers rest

end

/-- A new line, indented. -/
def line (depth : Nat) : List Char := '\n' :: List.replicate (2 * depth) ' '

mutual

/-- The document over several lines, inside `depth` brackets. -/
def prettyChars (depth : Nat) : Json → List Char
  | array [] => ['[', ']']
  | array items =>
    '[' :: (line (depth + 1) ++
      separated (',' :: line (depth + 1)) (prettyItems (depth + 1) items) ++ line depth ++ [']'])
  | object [] => ['\x7b', '\x7d']
  | object members =>
    '\x7b' :: (line (depth + 1) ++
      separated (',' :: line (depth + 1)) (prettyMembers (depth + 1) members) ++
      line depth ++ ['\x7d'])
  | null => "null".toList
  | bool b => if b then "true".toList else "false".toList
  | int i => (Decimal.integerText i).toList
  | float x => (floatLayout.write x).toList
  | string s => stringText s
  | unusable => "null".toList

/-- The items of an array over several lines. -/
def prettyItems (depth : Nat) : List Json → List (List Char)
  | [] => []
  | j :: rest => prettyChars depth j :: prettyItems depth rest

/-- The members of an object over several lines. -/
def prettyMembers (depth : Nat) : List (String × Json) → List (List Char)
  | [] => []
  | (k, j) :: rest =>
    (stringText k ++ ':' :: ' ' :: prettyChars depth j) :: prettyMembers depth rest

end

/-- The document without white space. -/
def compact (j : Json) : String := String.ofList j.compactChars

/-- The document over several lines. -/
def pretty (j : Json) : String := String.ofList (prettyChars 0 j)

example : (object [("a", array [int 1, null]), ("b", array [])]).compact =
    "\x7b\"a\":[1,null],\"b\":[]\x7d" := by decide +kernel
example : (array [string "\x01\n", bool true]).pretty = "[\n  \"\\u0001\\n\",\n  true\n]" := by
  decide +kernel

end GraphCompare.Json
