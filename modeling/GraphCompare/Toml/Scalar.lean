import GraphCompare.Decimal.Numeral
import GraphCompare.Toml.Basic

/-!
# Numbers, dates and words of TOML

These values have no delimiters of their own, so each is read from the whole run of characters up to
the next one that cannot belong to it. Integers are decimal, with a sign or without, or hexadecimal,
octal or binary; digits may have single underscores between them. A date or a time must exist in the
calendar or on the clock.
-/

namespace GraphCompare.Toml

/-- The digits of a run in which single underscores may stand between digits. -/
def digits? (isDigit : Char → Bool) : List Char → Option (List Char)
  | [] => none
  | [c] => if isDigit c then some [c] else none
  | c :: '_' :: rest => if isDigit c then (digits? isDigit rest).map (c :: ·) else none
  | c :: rest => if isDigit c then (digits? isDigit rest).map (c :: ·) else none

/-- The digits of a decimal integer: no zero before other digits. -/
def wholeDigits? (cs : List Char) : Option (List Char) :=
  (digits? Char.isDigit cs).filter fun ds => ds.length = 1 || ds.head? ≠ some '0'

/-- The value of a digit in a base up to sixteen. -/
def digitValue (c : Char) : Nat :=
  if c.isDigit then c.toNat - '0'.toNat
  else if 'a' ≤ c then c.toNat - 'a'.toNat + 10
  else c.toNat - 'A'.toNat + 10

/-- A number in some base. -/
def natural? (base : Nat) (isDigit : Char → Bool) (cs : List Char) : Option Int :=
  (digits? isDigit cs).map fun ds => (ds.foldl (fun n c => n * base + digitValue c) 0 : Nat)

/-- Whether a character is a hexadecimal digit. -/
def isHexDigit (c : Char) : Bool :=
  c.isDigit || ('a' ≤ c && c ≤ 'f') || ('A' ≤ c && c ≤ 'F')

/-- An integer of 64 bits with its sign. -/
def integer? (cs : List Char) : Option Int :=
  let value := match cs with
    | '0' :: 'x' :: rest => natural? 16 isHexDigit rest
    | '0' :: 'o' :: rest => natural? 8 (fun c => '0' ≤ c && c ≤ '7') rest
    | '0' :: 'b' :: rest => natural? 2 (fun c => c = '0' || c = '1') rest
    | cs =>
      let (negative, rest) := Numeral.takeSign cs
      (wholeDigits? rest).map fun ds =>
        let n : Int := Numeral.ofDigits ds
        if negative then -n else n
  value.filter fun i => Int64.minValue.toInt ≤ i && i ≤ Int64.maxValue.toInt

/-- Whether a character can belong to a run of digits. -/
def inDigits (c : Char) : Bool := c.isDigit || c = '_'

/-- The power of ten at the end of a number. -/
def power? : List Char → Option Int
  | c :: rest =>
    if c = 'e' ∨ c = 'E' then
      let (negative, rest) := Numeral.takeSign rest
      (digits? Char.isDigit rest).map fun ds =>
        let n : Int := Numeral.ofDigits ds
        if negative then -n else n
    else none
  | [] => none

/-- A floating point number with a point, a power of ten, or both. It must not be too large, unless
it is negative. -/
def decimal? (negative : Bool) (cs : List Char) : Option Binary64 := do
  let whole ← wholeDigits? (cs.takeWhile inDigits)
  let (fraction, power) ← match cs.dropWhile inDigits with
    | '.' :: rest => do
      let fraction ← digits? Char.isDigit (rest.takeWhile inDigits)
      match rest.dropWhile inDigits with
      | [] => pure (fraction, 0)
      | rest => pure (fraction, ← power? rest)
    | rest => pure ([], ← power? rest)
  let x := Binary64.ofDecimal negative (Numeral.ofDigits (whole ++ fraction))
    (power - fraction.length)
  if x = .infinity false then none else some x

/-- A floating point number. -/
def float? (cs : List Char) : Option Binary64 :=
  let (negative, rest) := Numeral.takeSign cs
  match rest with
  | ['i', 'n', 'f'] => some (.infinity negative)
  | ['n', 'a', 'n'] => some .nan
  | rest => decimal? negative rest

/-- A number of exactly two digits up to a greatest value. -/
def twoDigits? (least greatest : Nat) (a b : Char) : Option Nat :=
  if a.isDigit ∧ b.isDigit then
    let n := Numeral.ofDigits [a, b]
    if least ≤ n ∧ n ≤ greatest then some n else none
  else none

/-- The number of days of a month. -/
def daysOfMonth (year month : Nat) : Nat :=
  if month = 2 then
    if year % 4 = 0 ∧ (year % 100 ≠ 0 ∨ year % 400 = 0) then 29 else 28
  else if month = 4 ∨ month = 6 ∨ month = 9 ∨ month = 11 then 30
  else 31

/-- What follows a date. -/
def afterDate? : List Char → Option (List Char)
  | y₁ :: y₂ :: y₃ :: y₄ :: '-' :: m₁ :: m₂ :: '-' :: d₁ :: d₂ :: rest =>
    if y₁.isDigit ∧ y₂.isDigit ∧ y₃.isDigit ∧ y₄.isDigit then do
      let month ← twoDigits? 1 12 m₁ m₂
      let day ← twoDigits? 1 31 d₁ d₂
      if day ≤ daysOfMonth (Numeral.ofDigits [y₁, y₂, y₃, y₄]) month then some rest else none
    else none
  | _ => none

/-- What follows a time of day, which goes down to seconds and may have a fraction of them. -/
def afterTime? : List Char → Option (List Char)
  | h₁ :: h₂ :: ':' :: m₁ :: m₂ :: ':' :: s₁ :: s₂ :: rest => do
    let _ ← twoDigits? 0 23 h₁ h₂
    let _ ← twoDigits? 0 59 m₁ m₂
    let _ ← twoDigits? 0 60 s₁ s₂
    match rest with
    | '.' :: fraction => (Numeral.takeDigits? fraction).map Prod.snd
    | rest => some rest
  | _ => none

/-- Whether a text is the distance of a time zone, or nothing. -/
def isZone : List Char → Bool
  | [] | ['Z'] | ['z'] => true
  | [sign, h₁, h₂, ':', m₁, m₂] =>
    (sign = '+' || sign = '-') && (twoDigits? 0 23 h₁ h₂).isSome && (twoDigits? 0 59 m₁ m₂).isSome
  | _ => false

/-- Whether a text is a time of day, perhaps with a time zone. -/
def isZonedTime (cs : List Char) : Bool :=
  match afterTime? cs with
  | some rest => isZone rest
  | none => false

/-- Whether a text is a date, a time, or a date with a time. -/
def isDate (cs : List Char) : Bool :=
  match afterDate? cs with
  | some [] => true
  | some (c :: rest) => (c = 'T' || c = 't') && isZonedTime rest
  | none => afterTime? cs = some []

/-- The value of a whole run of characters. -/
def scalar? (cs : List Char) : Option Toml :=
  match cs with
  | ['t', 'r', 'u', 'e'] => some (.boolean true)
  | ['f', 'a', 'l', 's', 'e'] => some (.boolean false)
  | cs =>
    if isDate cs then some .date
    else
      match integer? cs with
      | some i => some (.integer i)
      | none => (float? cs).map .float

end GraphCompare.Toml
