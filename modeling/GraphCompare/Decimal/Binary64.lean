/-!
# Binary floating point numbers of 64 bits

A number is kept as its bits, so two numbers are equal exactly when their bits are: the two zeros
differ, and a number that is not a number equals itself. `Binary64.value` takes the bits apart into
a sign, a significand and a power of two, and `Binary64.nearest` is the way back from a fraction of
natural numbers: it rounds to the nearest number and, half-way between two, to the even significand.
Both are exact computations on natural numbers; no floating point operation is used.
-/

namespace GraphCompare

/-- A floating point number of 64 bits: one bit of sign, eleven of exponent, 52 of fraction. -/
structure Binary64 where
  bits : UInt64
deriving DecidableEq

namespace Binary64

/-- What the bits stand for. A finite number is its significand times a power of two. -/
inductive Value where
  | nan
  | infinite (negative : Bool)
  | finite (negative : Bool) (significand : Nat) (exponent : Int)
deriving DecidableEq

/-- The weight of the sign bit. -/
def signBit : Nat := 0x8000000000000000

/-- The weight of the lowest bit of the exponent, and of the leading one that the significand of
most numbers has and the fraction leaves out: two to the 52. -/
def hiddenBit : Nat := 0x10000000000000

/-- The exponent field of all ones, kept for the infinities and for what is not a number. -/
def topExponent : Nat := 0x7FF

/-- Whether the sign bit is set. -/
def isNegative (x : Binary64) : Bool := x.bits.toNat / signBit = 1

/-- The eleven bits between sign and fraction. -/
def exponentField (x : Binary64) : Nat := x.bits.toNat / hiddenBit % (topExponent + 1)

/-- The low 52 bits. -/
def fraction (x : Binary64) : Nat := x.bits.toNat % hiddenBit

/-- Takes the bits apart. The exponent field zero marks the subnormal numbers, whose significand has
no hidden leading one. -/
def value (x : Binary64) : Value :=
  if x.exponentField = topExponent then
    if x.fraction = 0 then .infinite x.isNegative else .nan
  else if x.exponentField = 0 then
    .finite x.isNegative x.fraction (-1074)
  else
    .finite x.isNegative (hiddenBit + x.fraction) (x.exponentField - 1075)

/-- A number from its sign and the 63 bits below it. -/
def ofParts (negative : Bool) (rest : Nat) : Binary64 :=
  ⟨UInt64.ofNat ((if negative then signBit else 0) + rest)⟩

/-- The infinity of a sign. -/
def infinity (negative : Bool) : Binary64 := ofParts negative (topExponent * hiddenBit)

/-- What results where there is no number. -/
def nan : Binary64 := ofParts false (topExponent * hiddenBit + hiddenBit / 2)

/-- The quotient rounded to the nearest natural number, a half going to the even neighbour. -/
def roundedQuotient (num den : Nat) : Nat :=
  let q := num / den
  let r := num % den
  if 2 * r < den then q
  else if den < 2 * r then q + 1
  else q + q % 2

/-- The exponent of the last place of the numbers around `num / den`: the significand then takes 53
bits, or fewer where the exponent is the smallest there is. -/
def lastPlace (num den : Nat) : Int :=
  let guess : Int := Nat.log2 num - Nat.log2 den
  let below := num * Nat.pow 2 (-guess).toNat < den * Nat.pow 2 guess.toNat
  max (if below then guess - 53 else guess - 52) (-1074)

/-- The number nearest to `± num / den`. The bits below the sign count the numbers upwards from
zero, so the carry out of a significand that rounds up to a power of two is the right one; whatever
reaches the exponent of all ones is infinite. -/
def nearest (negative : Bool) (num den : Nat) : Binary64 :=
  if num = 0 then ofParts negative 0
  else
    let place := lastPlace num den
    let significand :=
      roundedQuotient (num * Nat.pow 2 (-place).toNat) (den * Nat.pow 2 place.toNat)
    let rest := (place + 1074).toNat * hiddenBit + significand
    if rest < topExponent * hiddenBit then ofParts negative rest else infinity negative

/-- The number nearest to `± significand · 10 ^ exponent`. Past the ends of the range the power of
ten is not computed: 10 ^ 310 is beyond the greatest number and 10 ^ -330 below half the least. -/
def ofDecimal (negative : Bool) (significand : Nat) (exponent : Int) : Binary64 :=
  if significand = 0 then ofParts negative 0
  else
    -- a number of `b + 1` bits has between `b * 3 / 10` and `b * 4 / 10 + 1` digits
    let bits : Int := Nat.log2 significand
    if 310 < bits * 3 / 10 + exponent then infinity negative
    else if bits * 4 / 10 + 1 + exponent < -330 then ofParts negative 0
    else nearest negative (significand * Nat.pow 10 exponent.toNat) (Nat.pow 10 (-exponent).toNat)

/-- The number nearest to an integer. -/
def ofInt (i : Int) : Binary64 := nearest (i < 0) i.natAbs 1

example : ofDecimal false 1 0 = ⟨0x3FF0000000000000⟩ := by decide +kernel
example : ofDecimal true 5 (-324) = ⟨0x8000000000000001⟩ := by decide +kernel
example : ofDecimal false 9007199254740993 0 = ofInt 9007199254740992 := by decide +kernel
example : ofDecimal false 17976931348623159 292 = infinity false := by decide +kernel
example : (ofDecimal false 15 (-1)).value = .finite false (hiddenBit + hiddenBit / 2) (-52) := by
  decide +kernel

end Binary64

end GraphCompare
