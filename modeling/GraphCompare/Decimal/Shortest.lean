import GraphCompare.Decimal.Binary64

/-!
# The shortest decimal that reads back

A floating point number stands for all the reals that round to it: the reals between the two
midpoints to its neighbours, with the midpoints themselves when its significand is even. Of the
decimals in that interval `shortest` takes one with the fewest digits, and of those the one nearest
to the number.

The decimals with last place `10 ^ p` form a grid. If a grid has a point in the interval then one of
the two grid points around the number is in it, so the search walks the grids from coarse to fine
and tests two points on each. Everything is compared exactly, in natural numbers over the common
denominator of the grid and the interval.
-/

namespace GraphCompare

/-- A decimal `digits * 10 ^ exponent`. -/
structure Decimal where
  digits : Nat
  exponent : Int
deriving DecidableEq, Repr

/-- Which of two grid points is taken when the number lies half-way between them. -/
inductive HalfWay where
  | up
  | toEven
deriving DecidableEq

namespace Decimal

/-- The reals that round to a number, and the number itself, as multiples of a power of two. -/
structure Interval where
  low : Nat
  centre : Nat
  high : Nat
  /-- Whether the two ends round to the number too. -/
  closed : Bool
  exponent : Int

/-- The interval of a positive number. Below a power of two the neighbour is only half as far,
except at the smallest exponent. Four units make one unit of the last place. -/
def Interval.ofNumber (significand : Nat) (exponent : Int) : Interval where
  low := 4 * significand - (if significand = Binary64.hiddenBit ∧ exponent ≠ -1074 then 1 else 2)
  centre := 4 * significand
  high := 4 * significand + 2
  closed := significand % 2 = 0
  exponent := exponent - 2

/-- The point of the grid `10 ^ p` nearest to the centre of an interval, among the points in it. -/
def Interval.gridPoint? (i : Interval) (half : HalfWay) (p : Int) : Option Nat :=
  let scale := Nat.pow 2 i.exponent.toNat * Nat.pow 10 (-p).toNat
  let unit := Nat.pow 2 (-i.exponent).toNat * Nat.pow 10 p.toNat
  let inside (n : Nat) : Bool :=
    if i.closed then i.low * scale ≤ n * unit ∧ n * unit ≤ i.high * scale
    else i.low * scale < n * unit ∧ n * unit < i.high * scale
  let under := i.centre * scale / unit
  let rest := i.centre * scale % unit
  match inside under, inside (under + 1) with
  | true, true =>
    if 2 * rest < unit then some under
    else if unit < 2 * rest then some (under + 1)
    else match half with
      | .up => some (under + 1)
      | .toEven => some (under + under % 2)
  | true, false => some under
  | false, true => some (under + 1)
  | false, false => none

/-- The first grid, from `10 ^ p` down, that has a point in the interval. -/
def Interval.firstPoint? (i : Interval) (half : HalfWay) :
    (grids : Nat) → (p : Int) → Option Decimal
  | 0, _ => none
  | grids + 1, p =>
    match i.gridPoint? half p with
    | some n => some ⟨n, p⟩
    | none => i.firstPoint? half grids (p - 1)

/-- The shortest decimal in the interval of a positive number. The walk starts at a grid coarser
than the interval is high; 17 digits always suffice, so the walk of 25 grids ends at a point. -/
def shortest (half : HalfWay) (significand : Nat) (exponent : Int) : Decimal :=
  let bits : Int := Nat.log2 significand + exponent
  let start := bits * 30103 / 100000 + 3
  ((Interval.ofNumber significand exponent).firstPoint? half 25 start).getD
    ⟨significand * Nat.pow 2 exponent.toNat * Nat.pow 5 (-exponent).toNat, min exponent 0⟩

example : shortest .up Binary64.hiddenBit (-52) = ⟨1, 0⟩ := by decide +kernel
example : shortest .up 1 (-1074) = ⟨5, -324⟩ := by decide +kernel
example : shortest .up (2 * Binary64.hiddenBit - 1) 971 = ⟨17976931348623157, 292⟩ := by
  decide +kernel
example : shortest .toEven 4503599627371520 (-16) = ⟨6871947673601562, -5⟩ := by decide +kernel
example : shortest .up 4503599627371520 (-16) = ⟨6871947673601563, -5⟩ := by decide +kernel

end Decimal

end GraphCompare
