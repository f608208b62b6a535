import GraphCompare.Text.Printable

/-!
# Quoted text

A text between double quotes, as messages and listings show it. Quotes, backslashes and the usual
controls have a two-character form, and every character that is not shown as itself is written as
its code point in hexadecimal digits between braces.
-/

namespace GraphCompare.Text

/-- One character inside a quoted text. -/
def quotedChar (c : Char) : List Char :=
  match c with
  | '"' => ['\\', '"']
  | '\\' => ['\\', '\\']
  | '\n' => ['\\', 'n']
  | '\r' => ['\\', 'r']
  | '\t' => ['\\', 't']
  | '\x00' => ['\\', '0']
  | c =>
    if isShown c then [c] else '\\' :: 'u' :: '\x7b' :: Nat.toDigits 16 c.toNat ++ ['\x7d']

/-- The text between quotes. -/
def quoted (s : String) : String :=
  String.ofList ('"' :: s.toList.flatMap quotedChar ++ ['"'])

example : quoted "a\"\x00\u0301" = "\"a\\\"\\0\\u\x7b301\x7d\"" := by decide +kernel

end GraphCompare.Text
