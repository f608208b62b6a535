import GraphCompare.Hash.Blake3

/-!
# Fingerprints of texts

The fingerprint of a text is a digest of its UTF-8 bytes in lower-case hexadecimal digits. Line
ends, tabs and spaces are left out before the digest is taken, so texts that differ only in their
layout have one fingerprint. No other white space is left out.
-/

namespace GraphCompare

/-- The characters that a fingerprint does not see. -/
def isLayout (c : Char) : Bool := c = '\n' || c = '\t' || c = ' '

/-- A text without its layout. -/
def withoutLayout (s : String) : String := String.ofList (s.toList.filter fun c => !isLayout c)

/-- The two hexadecimal digits of a byte. -/
def hexByte (b : UInt8) : List Char :=
  [Nat.digitChar (b.toNat / 16), Nat.digitChar (b.toNat % 16)]

/-- The digest of a text without its layout, `size` bytes long. -/
def fingerprint (size : Nat) (s : String) : String :=
  String.ofList ((Blake3.hash (withoutLayout s).toUTF8.toList size).flatMap hexByte)

end GraphCompare
