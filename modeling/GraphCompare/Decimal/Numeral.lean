import GraphCompare.Decimal.Binary64

/-!
# Reading decimal numerals

The readers here take a whole text: an integer with an optional sign (`Numeral.integer?`), and a
floating point number with optional sign, point and power of ten, or one of the words for infinity
and for what is not a number (`Numeral.binary64?`). Digits are the ten of ASCII. A fraction is kept
as the digits without the point and a count of places, so that one exact rounding ends the reading.
-/

namespace GraphCompare.Numeral

/-- The value of a run of decimal digits. -/
def ofDigits (digits : List Char) : Nat :=
  digits.foldl (fun n c => n * 10 + (c.toNat - '0'.toNat)) 0

/-- A nonempty run of digits, and what follows it. -/
def takeDigits? (cs : List Char) : Option (List Char × List Char) :=
  match cs.takeWhile Char.isDigit with
  | [] => none
  | digits => some (digits, cs.dropWhile Char.isDigit)

/-- A leading sign, true for minus, and what follows it. -/
def takeSign : List Char → Bool × List Char
  | '-' :: rest => (true, rest)
  | '+' :: rest => (false, rest)
  | cs => (false, cs)

/-- An integer: an optional sign and at least one digit, nothing else. -/
def integer? (cs : List Char) : Option Int :=
  let (negative, rest) := takeSign cs
  match takeDigits? rest with
  | some (digits, []) => some (if negative then -(ofDigits digits : Int) else ofDigits digits)
  | _ => none

/-- An integer of 64 bits. -/
def int64? (cs : List Char) : Option Int64 :=
  (integer? cs).bind fun i =>
    if Int64.minValue.toInt ≤ i ∧ i ≤ Int64.maxValue.toInt then some (Int64.ofInt i) else none

/-- The power of ten that ends a numeral: nothing, or `e` with an integer. -/
def powerOfTen? : List Char → Option Int
  | [] => some 0
  | c :: rest => if c = 'e' ∨ c = 'E' then integer? rest else none

/-- An unsigned floating point numeral: digits, a point among or around them, a power of ten. -/
def unsigned? (negative : Bool) (cs : List Char) : Option Binary64 :=
  let whole := cs.takeWhile Char.isDigit
  let (fraction, rest) := match cs.dropWhile Char.isDigit with
    | '.' :: rest => (rest.takeWhile Char.isDigit, rest.dropWhile Char.isDigit)
    | rest => ([], rest)
  if whole.isEmpty ∧ fraction.isEmpty then none
  else
    (powerOfTen? rest).map fun power =>
      .ofDecimal negative (ofDigits (whole ++ fraction)) (power - fraction.length)

/-- A floating point number. The words are read in any case of letters. -/
def binary64? (cs : List Char) : Option Binary64 :=
  let (negative, rest) := takeSign cs
  match String.ofList (rest.map Char.toLower) with
  | "inf" | "infinity" => some (.infinity negative)
  | "nan" => some (if negative then ⟨Binary64.nan.bits ||| 0x8000000000000000⟩ else .nan)
  | _ => unsigned? negative rest

end GraphCompare.Numeral
